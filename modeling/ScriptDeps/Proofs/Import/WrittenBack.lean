import ScriptDeps.Proofs.Import.Grammar
import ScriptDeps.Proofs.Text.Utf8
import ScriptDeps.Proofs.Version.Text

/-! # Dependencies written back

    A dependency can be written on a line again (`Dependency.line`).  What was
    read from a line has the forms that writing relies on (`IsWritable`), and a
    dependency with these forms is read back from its line: the origin holds no
    operator that would cut it earlier and falls under the same rule again, and
    the value of the constraint is read as what it was
    (`Dependency.written_back`). -/

namespace ScriptDeps

/-! ## Section 1: Writing -/

/-- How an origin is written in an annotation. -/
def Origin.written : Origin → Text
  | .url t => t
  | .remote t => t
  | .shorthand owner none => '@' :: owner
  | .shorthand owner (some repo) => '@' :: (owner ++ '/' :: (repo ++ ".git".toList))
  | .directory path _ => path.display

/-- How a constraint is written behind an origin. -/
def Constraint.written : Constraint → Text
  | .latest => []
  | c => ' ' :: c.text

/-- What is written behind the module. -/
def Dependency.written (d : Dependency) : Text := d.origin.written ++ d.constraint.written

/-- The line that declares `d`. -/
def Dependency.line (d : Dependency) : Text := ImportLine.plainLine d.module d.written

/-- The text before the operator of the annotation on a line. -/
def ImportLine.originText? (line : Text) : Option Text :=
  ((ImportLine.ofText? line).bind ImportLine.comment).bind fun comment =>
    Annotation.parts comment |>.origin

/-! ## Section 2: Forms -/

/-- The value of the constraint is read as what it is. -/
def Constraint.IsWritable : Constraint → Prop
  | .upToNextMajor v => v.IsSemantic
  | .exactly v => v.IsSemantic
  | .reference r =>
      r ≠ [] ∧ Cut.IsTrimmed Text.isSpacing r ∧ Version.ofLooseText? r = none
  | .latest => True

/-- The origin is read from how it is written. -/
structure Origin.IsWritable (place : Origin.Place) (o : Origin) : Prop where
  nonempty : o.written ≠ []
  trimmed  : Cut.IsTrimmed Text.isSpacing o.written
  read     : ∃ bare, Origin.ofText place o.written = .ok ⟨o, bare⟩

/-- The forms that writing relies on.  Where no constraint follows the origin,
    an operator may stand in it, but only one without a value. -/
structure Dependency.IsWritable (place : Origin.Place) (d : Dependency) : Prop where
  module     : ImportLine.IsModuleName d.module
  origin     : d.origin.IsWritable place
  constraint : d.constraint.IsWritable
  uncut      : Annotation.HasNoOperator d.origin.written ∨
    d.constraint = .latest ∧ Annotation.CutsInto d.origin.written d.origin.written none

variable {place : Origin.Place}

/-! ## Section 3: Written constraints -/

namespace Constraint

open Annotation

/-- A constraint that is not `latest` is an operator, a space and a value that
    states it. -/
theorem IsWritable.exists_value {c : Constraint} (h : c.IsWritable) :
    c = .latest ∨ ∃ op value, c.written = ' ' :: (op.text ++ ' ' :: value) ∧ value ≠ [] ∧
      Cut.IsTrimmed Text.isSpacing value ∧ States (some (op, value)) c := by
  have hversion : ∀ {v : Version}, v.IsSemantic →
      v.text ≠ [] ∧ Cut.IsTrimmed Text.isSpacing v.text := by
    intro v hv
    refine ⟨fun hnil => ?_, Cut.isTrimmed_of_forall fun c hc => ?_⟩
    · have hread := hv.ofLooseText?_text
      rw [hnil] at hread
      cases hread
    · rw [Text.isSpacing, Version.isBlank_of_isVersionChar (hv.isVersionChar_of_mem c hc),
        Bool.false_and]
  cases c with
  | upToNextMajor v =>
    exact .inr ⟨.upToNextMajor, v.text, rfl, (hversion h).1, (hversion h).2,
      .upToNextMajor h.ofLooseText?_text⟩
  | exactly v =>
    exact .inr ⟨.exact, v.text, rfl, (hversion h).1, (hversion h).2, .exactly h.ofLooseText?_text⟩
  | reference r => exact .inr ⟨.exact, r, rfl, h.1, h.2.1, .reference h.2.2⟩
  | latest => exact .inl rfl

end Constraint

/-! ## Section 4: Written annotations -/

namespace Dependency

open Annotation

variable {d : Dependency}

/-- A written annotation is cut where it was put together. -/
theorem IsWritable.exists_cut (h : d.IsWritable place) :
    ∃ requirement, CutsInto d.written d.origin.written requirement ∧
      States requirement d.constraint ∧ d.written ≠ [] ∧
      Cut.IsTrimmed Text.isSpacing d.written := by
  have hne := h.origin.nonempty
  have htrim := h.origin.trimmed
  rcases h.constraint.exists_value with hlatest | ⟨op, value, hwritten, hvalue, hvalueTrim, hstates⟩
  · have hwhole : d.written = d.origin.written := by
      rw [Dependency.written, hlatest]
      exact List.append_nil _
    have hcut : CutsInto d.origin.written d.origin.written none :=
      h.uncut.elim HasNoOperator.cutsInto And.right
    rw [hwhole, hlatest]
    exact ⟨none, hcut, .latest, hne, htrim⟩
  · -- A constraint is written, so nothing in the origin may look like an operator.
    have hfree : HasNoOperator d.origin.written := by
      refine h.uncut.resolve_right fun hlatest => ?_
      rw [hlatest.1] at hwritten
      cases hwritten
    have hwhole : d.written = d.origin.written ++ ' ' :: (op.text ++ ' ' :: value) := by
      rw [Dependency.written, hwritten]
    have hspace : ∀ c ∈ [' '], Text.isSpacing c = true := List.all_eq_true.1 (by decide)
    -- The value is trimmed, so it starts with something that is not spacing.
    have hsome : ∃ c ∈ ' ' :: value, Text.isSpacing c = false := by
      cases value with
      | nil => exact absurd rfl hvalue
      | cons c value => exact ⟨c, by simp, Cut.stops_cons.1 hvalueTrim.1⟩
    rw [hwhole]
    refine ⟨some (op, value), .first (isFirstIn_spaced hfree hsome) ?_ ?_, hstates, by simp, ?_⟩
    · exact ⟨[], [' '], rfl, nofun, hspace, htrim⟩
    · exact ⟨[' '], [], by simp, hspace, nofun, hvalueTrim⟩
    · have hlast := Cut.isTrimmed_append (a := d.origin.written ++ ' ' :: (op.text ++ [' ']))
        (htrim.1.append hne _) (by simp) hvalueTrim hvalue
      simpa using hlast

/-- What can be written is read from its line. -/
theorem IsWritable.ofLine_line (h : d.IsWritable place) (v : Version) :
    (LineReading.ofLine place v d.line).1 = .dependency d := by
  obtain ⟨requirement, hcut, hstates, hne, htrim⟩ := h.exists_cut
  obtain ⟨bare, hread⟩ := h.origin.read
  have hline := ImportLine.ofText?_plainLine h.module hne htrim
  rw [line, ImportLine.ofLine_of_annotated place v hline, dependency_of_cutsInto hne htrim hcut,
    constraint_eq_ok_iff.2 hstates]
  dsimp only
  rw [if_neg h.origin.nonempty, hread]

end Dependency

/-! ## Section 5: What is read can be written -/

namespace Origin

open Annotation

variable {owner : Text} {repo : Option Text}

/-- A shorthand is written in the form with the `@`. -/
theorem gives_written_shorthand (place : Place) (howner : IsWord isOwnerChar owner)
    (hrepo : ∀ r ∈ repo, IsWord isRepoChar r) :
    Rule.shorthand.Gives place (Origin.shorthand owner repo).written (.shorthand owner repo) := by
  cases repo with
  | none => exact .owner howner
  | some repo =>
    have hdrops : DropsGit (repo ++ ".git".toList) repo := .dropped rfl (hrepo repo rfl).1
    exact .ownerRepo howner (hdrops.isWord_iff.1 (hrepo repo rfl)) hdrops

/-- The characters of a written shorthand. -/
def isShorthandChar (c : Char) : Bool := isRepoChar c || c = '@' || c = '/'

theorem isShorthandChar_of_isWord {p : Char → Bool} {t : Text}
    (hp : ∀ c, p c = true → isRepoChar c = true) (h : IsWord p t) :
    ∀ c ∈ t, isShorthandChar c = true := by
  intro c hc
  rw [isShorthandChar, hp c (h.2 c hc), Bool.true_or, Bool.true_or]

theorem isShorthandChar_of_mem (howner : IsWord isOwnerChar owner)
    (hrepo : ∀ r ∈ repo, IsWord isRepoChar r) :
    ∀ c ∈ (Origin.shorthand owner repo).written, isShorthandChar c = true := by
  have hownerChar := isShorthandChar_of_isWord (fun c hc => by
    simp only [isOwnerChar, Bool.or_eq_true] at hc
    simp only [isRepoChar, Bool.or_eq_true]
    tauto) howner
  cases repo with
  | none =>
    intro c hc
    rcases List.mem_cons.1 hc with rfl | hc
    · rfl
    · exact hownerChar c hc
  | some repo =>
    have hrepoChar := isShorthandChar_of_isWord (fun _ => id) (hrepo repo rfl)
    have hgit : ∀ c ∈ ".git".toList, isShorthandChar c = true := List.all_eq_true.1 (by decide)
    intro c hc
    simp only [written, List.mem_cons, List.mem_append] at hc
    rcases hc with rfl | hc | rfl | hc | hc
    · rfl
    · exact hownerChar c hc
    · rfl
    · exact hrepoChar c hc
    · exact hgit c hc

/-- A character of a shorthand is neither spacing nor part of an operator. -/
theorem isSpacing_of_isShorthandChar {c : Char} (h : isShorthandChar c = true) :
    Text.isSpacing c = false ∧ c ≠ '~' ∧ c ≠ '=' := by
  simp only [isShorthandChar, isRepoChar, Bool.or_eq_true, decide_eq_true_eq] at h
  rcases h with ((((h | rfl) | rfl) | rfl) | rfl) | rfl
  · have hrange := Text.toNat_of_isLetterOrDigit h
    refine ⟨?_, ?_, ?_⟩
    · rw [Text.isSpacing, Text.isBlank_of_printable (by omega) (by omega), Bool.false_and]
    · rintro rfl
      exact absurd h (by decide)
    · rintro rfl
      exact absurd h (by decide)
  all_goals decide

theorem isWritable_shorthand (howner : IsWord isOwnerChar owner)
    (hrepo : ∀ r ∈ repo, IsWord isRepoChar r) :
    (Origin.shorthand owner repo).IsWritable place ∧
      HasNoOperator (Origin.shorthand owner repo).written := by
  have hchar := fun c hc => isSpacing_of_isShorthandChar (isShorthandChar_of_mem howner hrepo c hc)
  refine ⟨⟨?_, Cut.isTrimmed_of_forall fun c hc => (hchar c hc).1, false, ?_⟩,
    hasNoOperator_of_forall fun c hc => (hchar c hc).2⟩
  · cases repo with
    | none => exact List.cons_ne_nil _ _
    | some repo => exact List.cons_ne_nil _ _
  · rw [ofText, (shorthand?_eq_some_iff place).2 (gives_written_shorthand place howner hrepo)]

/-- What a rule gives is written like the text it was given for, or it is a
    shorthand.  Only a home directory is not written as it was. -/
theorem isWritable_of_gives {rule : Rule} {t : Text} {o : Origin} (happlies : rule.Applies t)
    (hgives : rule.Gives place t o) (hne : t ≠ []) (htrim : Cut.IsTrimmed Text.isSpacing t)
    (hplain : t.head? ≠ some '~') :
    o.IsWritable place ∧ (HasNoOperator o.written ∨ o.written = t) := by
  -- What is written as it was read falls under the same rule.
  have hsame : o.written = t → o.IsWritable place ∧ (HasNoOperator o.written ∨ o.written = t) := by
    intro hwritten
    refine ⟨⟨?_, ?_, ?_⟩, .inr hwritten⟩
    · rwa [hwritten]
    · rwa [hwritten]
    · rw [hwritten]
      exact ⟨_, ofText_of_gives happlies hgives⟩
  have hshorthand : ∀ {owner raw repo}, IsWord isOwnerChar owner → IsWord isRepoChar raw →
      DropsGit raw repo → (Origin.shorthand owner (some repo)).IsWritable place ∧
        HasNoOperator (Origin.shorthand owner (some repo)).written := by
    intro owner raw repo howner hraw hdrops
    refine isWritable_shorthand howner fun r hr => ?_
    obtain rfl := Option.some.inj hr
    exact hdrops.isWord_iff.2 hraw
  cases hgives with
  | owner howner => exact (isWritable_shorthand howner (fun r hr => by cases hr)).imp_right .inl
  | ownerRepo howner hraw hdrops => exact (hshorthand howner hraw hdrops).imp_right .inl
  | remote => exact hsame rfl
  | bare howner hraw hdrops => exact (hshorthand howner hraw hdrops).imp_right .inl
  | url => exact hsame rfl
  | directory hpath =>
    cases hpath with
    | plain => exact hsame (Utf8.decodeLossy_encode t)
    | home hnames => exact absurd hnames.head?_eq hplain

end Origin

namespace Dependency

open Annotation

theorem isWritable_companion {c : Constraint} (hc : c.IsWritable) :
    (Dependency.companion c).IsWritable place := by
  have howner : Origin.IsWord Origin.isOwnerChar "xcode-actions".toList :=
    Origin.isWord_iff.1 (by decide)
  have hrepo : Origin.IsWord Origin.isRepoChar "swift-sh".toList :=
    Origin.isWord_iff.1 (by decide)
  obtain ⟨horigin, hfree⟩ := @Origin.isWritable_shorthand place _ _ howner fun r hr => by
    obtain rfl := Option.some.inj hr
    exact hrepo
  have hmodule : ImportLine.IsModuleName companionModule :=
    ImportLine.isModuleName_of_run (by decide) (List.all_eq_true.1 (by decide))
  exact ⟨hmodule, horigin, hc, .inl hfree⟩

variable {d : Dependency} {comment origin line : Text} {requirement : Option (Operator × Text)}

/-- The value behind an operator is read as a semantic version, or it is kept. -/
theorem isWritable_of_states {op : Operator} {value : Text} {c : Constraint} (hne : value ≠ [])
    (htrim : Cut.IsTrimmed Text.isSpacing value) (h : States (some (op, value)) c) :
    c.IsWritable := by
  cases h with
  | upToNextMajor hread => exact Version.isSemantic_of_ofLooseText? hread
  | exactly hread => exact Version.isSemantic_of_ofLooseText? hread
  | reference hread => exact ⟨hne, htrim, hread⟩

/-- What a cut leaves: a trimmed origin, which holds no operator unless nothing
    was cut off, and a requirement that can be written. -/
theorem forms_of_cutsInto (htrim : Cut.IsTrimmed Text.isSpacing comment)
    (hcut : CutsInto comment origin requirement) :
    Cut.IsTrimmed Text.isSpacing origin ∧
    (HasNoOperator origin ∨ requirement = none ∧ CutsInto origin origin none) ∧
    ∀ c, States requirement c → c.IsWritable := by
  cases hcut with
  | whole hfree =>
    refine ⟨htrim, .inr ⟨rfl, .whole hfree⟩, fun c hc => ?_⟩
    cases hc
    trivial
  | first hfirst horigin hvalue =>
    obtain ⟨c, hc, hspace⟩ := hfirst.1.2
    have hfree := hfirst.hasNoOperator
    obtain ⟨a, b, rfl, _, _, horiginTrim⟩ := horigin
    refine ⟨horiginTrim, .inl hfree.of_infix, fun c' => isWritable_of_states ?_ ?_⟩
    · rintro rfl
      rw [Cut.trim_eq_nil_iff.1 (Cut.trimsTo_iff.1 hvalue) c hc] at hspace
      cases hspace
    · obtain ⟨_, _, _, _, _, hvalueTrim⟩ := hvalue
      exact hvalueTrim

/-- Of an annotated line the cut leaves a trimmed origin and a requirement that
    can be written, and the rule that gave the origin leaves its text as it was
    or makes a shorthand of it. -/
theorem isWritable_of_annotated {v : Version} {module : Text}
    (hline : ImportLine.ofText? line = some ⟨module, some comment⟩)
    (h : (LineReading.ofLine place v line).1 = .dependency d)
    (hplain : ∀ t, ImportLine.originText? line = some t → t.head? ≠ some '~') :
    d.IsWritable place := by
  obtain ⟨hmodule, hne, htrim⟩ := ImportLine.forms_of_annotated hline
  obtain ⟨origin, requirement, hcut, hparts⟩ := exists_cutsInto hne htrim
  obtain ⟨horiginTrim, huncut, hconstraint⟩ := forms_of_cutsInto htrim hcut
  have hvalid : ¬ IsInvalid place module origin requirement := by
    intro hinvalid
    obtain ⟨why, hwhy⟩ := ofLine_of_isInvalid v hline hcut hinvalid
    rw [hwhy] at h
    cases h
  obtain ⟨d', events, hread, rfl, hstates, hcompanion, hrule⟩ :=
    ofLine_of_not_isInvalid v hline hcut hvalid
  rw [hread] at h
  cases h
  by_cases horigin : origin = []
  · rw [(hcompanion horigin).1]
    exact isWritable_companion (hconstraint _ hstates)
  · obtain ⟨rule, happlies, hgives, _⟩ := hrule horigin
    have hhead : origin.head? ≠ some '~' := by
      refine hplain origin ?_
      simp [ImportLine.originText?, hline, hparts, horigin]
    obtain ⟨hwritable, hwritten⟩ :=
      Origin.isWritable_of_gives happlies hgives horigin horiginTrim hhead
    refine ⟨hmodule, hwritable, hconstraint _ hstates, ?_⟩
    rcases hwritten with hfree | hsame
    · exact .inl hfree
    · -- Only a comment that was not cut has an operator in its origin.
      rw [hsame]
      refine huncut.imp_right fun ⟨hnone, hwhole⟩ => ⟨?_, hwhole⟩
      rw [hnone] at hstates
      exact (Except.ok.inj (constraint_eq_ok_iff.2 hstates)).symm

/-- What is read from a line can be written. -/
theorem isWritable_of_ofLine {v : Version} (hv : v.IsSemantic)
    (h : (LineReading.ofLine place v line).1 = .dependency d)
    (hplain : ∀ t, ImportLine.originText? line = some t → t.head? ≠ some '~') :
    d.IsWritable place := by
  cases hline : ImportLine.ofText? line with
  | none =>
    rw [ImportLine.ofLine_of_not_import place v hline] at h
    cases h
  | some found =>
    obtain ⟨module, comment?⟩ := found
    cases comment? with
    | none =>
      rw [ImportLine.ofLine_of_bare place v hline] at h
      split at h
      · cases h
        exact isWritable_companion hv
      · cases h
    | some comment => exact isWritable_of_annotated hline h hplain

/-! ## Section 6: There and back -/

/-- A dependency that was read from a line is read from its own line again, in
    the same place and by the same version of the tool.  Only where the origin
    starts with `~` the home directory is written instead, and that may be no
    text at all. -/
theorem written_back {v : Version} (hv : v.IsSemantic)
    (h : (LineReading.ofLine place v line).1 = .dependency d)
    (hplain : ∀ t, ImportLine.originText? line = some t → t.head? ≠ some '~') :
    (LineReading.ofLine place v d.line).1 = .dependency d :=
  (isWritable_of_ofLine hv h hplain).ofLine_line v

theorem written_back_from_block :
    let busy := "\t@testable import class Foo.Bar /* mxcl/Foo.git == v1 */ var x".toList
    let d : Dependency := ⟨"Foo".toList, .shorthand "mxcl".toList (some "Foo".toList),
      .exactly ⟨1, 0, 0, [], []⟩⟩
    (LineReading.ofLine ImportLine.homelessPlace default busy).1 = .dependency d ∧
    ImportLine.originText? busy = some "mxcl/Foo.git".toList ∧
    d.line = "import Foo//@mxcl/Foo.git == 1.0.0".toList ∧
    (LineReading.ofLine ImportLine.homelessPlace default d.line).1 = .dependency d := by
  intro busy d
  have hread : (LineReading.ofLine ImportLine.homelessPlace default busy).1 = .dependency d := by
    decide
  have horigin : ImportLine.originText? busy = some "mxcl/Foo.git".toList := by decide
  have hplain : ∀ t, ImportLine.originText? busy = some t → t.head? ≠ some '~' := by
    intro t ht
    rw [horigin] at ht
    cases ht
    decide
  exact ⟨hread, horigin, by decide, written_back (by decide) hread hplain⟩

end Dependency

end ScriptDeps
