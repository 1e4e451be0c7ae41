import ScriptDeps.Proofs.Import.Layout
import ScriptDeps.Proofs.Import.OriginRules
import ScriptDeps.Proofs.Import.Requirement

/-! # The grammar of annotations

    What an annotated line declares, told by its cut and by the rule that its
    origin falls under.  `IsInvalid` lists all that can be wrong with an
    annotation; a line is rejected for these reasons and no others, and every
    other line is a dependency (`annotated_line_by_grammar`). -/

namespace ScriptDeps
namespace Annotation

/-! ## Section 1: Model -/

/-- What can be wrong with an annotation. -/
inductive IsInvalid (place : Origin.Place) (module origin : Text)
    (requirement : Option (Operator × Text)) : Prop where
  | notAVersion {value : Text} (h : requirement = some (.upToNextMajor, value))
      (hvalue : Version.ofLooseText? value = none)
  | noOrigin (h : origin = []) (hmodule : module ≠ companionModule)
  | malformedUrl (h : Origin.Rule.url.Applies origin) {c : Char} (hmem : c ∈ origin)
      (hc : Text.isBlank c = true ∨ Text.isControl c = true)
  | unknownHome (h : Origin.Rule.directory.Applies origin) {user tail : Text}
      (hnames : Origin.NamesHome origin user tail) (hhome : place.homeFor? user = none)

variable {place : Origin.Place} {module comment origin : Text}
  {requirement : Option (Operator × Text)}

/-! ## Section 2: Annotations -/

/-- The dependency of a comment that is cut. -/
theorem dependency_of_cutsInto (hne : comment ≠ []) (htrim : Cut.IsTrimmed Text.isSpacing comment)
    (hcut : CutsInto comment origin requirement) : dependency place module comment =
      match constraint requirement with
      | .error why => .error why
      | .ok c =>
          if origin = [] then
            if module = companionModule then .ok (.companion c, false)
            else .error (.noOrigin module)
          else match Origin.ofText place origin with
            | .ok r => .ok (⟨module, r.origin, c⟩, r.bare)
            | .error why => .error (.origin why) := by
  rw [dependency, parts_of_cutsInto hne htrim hcut]
  dsimp only
  cases constraint requirement with
  | error why => rfl
  | ok c =>
    dsimp only
    by_cases horigin : origin = []
    · rw [if_pos (by simpa using horigin), if_pos horigin]
    · rw [if_neg (by simpa using horigin)]
      exact (if_neg horigin).symm

theorem isInvalid_of_ofText {why : Origin.Refusal} (h : Origin.ofText place origin = .error why) :
    IsInvalid place module origin requirement := by
  obtain ⟨rule, happlies, hrefuses⟩ := Origin.ofText_eq_error_iff.1 h
  cases hrefuses with
  | malformedUrl hmem hc => exact .malformedUrl happlies hmem hc
  | unknownHome hnames hhome => exact .unknownHome happlies hnames hhome

/-- Where the constraint is right, the fault lies with the origin. -/
theorem IsInvalid.origin_fails {c : Constraint} (h : IsInvalid place module origin requirement)
    (hstates : States requirement c) :
    origin = [] ∧ module ≠ companionModule ∨
      origin ≠ [] ∧ ∃ why, Origin.ofText place origin = .error why := by
  cases h with
  | notAVersion heq hvalue =>
    have hok := constraint_eq_ok_iff.2 hstates
    rw [constraint_eq_error_iff.2 ⟨_, heq, hvalue, rfl⟩] at hok
    cases hok
  | noOrigin horigin hmodule => exact .inl ⟨horigin, hmodule⟩
  | malformedUrl happlies hmem hc =>
    exact .inr ⟨List.ne_nil_of_mem hmem, _,
      Origin.ofText_of_refuses happlies (.malformedUrl hmem hc)⟩
  | unknownHome happlies hnames hhome =>
    refine .inr ⟨?_, _, Origin.ofText_of_refuses happlies (.unknownHome hnames hhome)⟩
    rw [hnames.1]
    exact List.cons_ne_nil _ _

theorem dependency_of_isInvalid (hne : comment ≠ []) (htrim : Cut.IsTrimmed Text.isSpacing comment)
    (hcut : CutsInto comment origin requirement)
    (h : IsInvalid place module origin requirement) :
    ∃ why, dependency place module comment = .error why := by
  rw [dependency_of_cutsInto hne htrim hcut]
  cases hconstraint : constraint requirement with
  | error why => exact ⟨why, rfl⟩
  | ok c =>
    dsimp only
    rcases h.origin_fails (constraint_eq_ok_iff.1 hconstraint) with
      ⟨horigin, hmodule⟩ | ⟨horigin, why, hwhy⟩
    · rw [if_pos horigin, if_neg hmodule]
      exact ⟨_, rfl⟩
    · rw [if_neg horigin, hwhy]
      exact ⟨_, rfl⟩

theorem dependency_of_not_isInvalid (hne : comment ≠ [])
    (htrim : Cut.IsTrimmed Text.isSpacing comment) (hcut : CutsInto comment origin requirement)
    (h : ¬ IsInvalid place module origin requirement) :
    ∃ d bare, dependency place module comment = .ok (d, bare) ∧ d.module = module ∧
      States requirement d.constraint ∧
      (origin = [] → d = .companion d.constraint ∧ bare = false) ∧
      (origin ≠ [] → ∃ rule : Origin.Rule, rule.Applies origin ∧
        rule.Gives place origin d.origin ∧ bare = decide (rule = .bare)) := by
  rw [dependency_of_cutsInto hne htrim hcut]
  cases hconstraint : constraint requirement with
  | error why =>
    obtain ⟨value, heq, hvalue, _⟩ := constraint_eq_error_iff.1 hconstraint
    exact absurd (.notAVersion heq hvalue) h
  | ok c =>
    have hstates := constraint_eq_ok_iff.1 hconstraint
    dsimp only
    -- Without an origin it is the companion library, or there is nowhere to get it from.
    by_cases horigin : origin = []
    · have hmodule : module = companionModule := by
        by_contra hmodule
        exact h (.noOrigin horigin hmodule)
      rw [if_pos horigin, if_pos hmodule]
      exact ⟨_, _, rfl, hmodule.symm, hstates, fun _ => ⟨rfl, rfl⟩,
        fun hsome => absurd horigin hsome⟩
    · rw [if_neg horigin]
      cases hread : Origin.ofText place origin with
      | error why => exact absurd (isInvalid_of_ofText hread) h
      | ok r =>
        exact ⟨_, _, rfl, rfl, hstates, fun hnone => absurd hnone horigin,
          fun _ => Origin.ofText_eq_ok_iff.1 hread⟩

/-! ## Section 3: Lines -/

variable {line : Text}

theorem ofLine_of_isInvalid (v : Version)
    (hline : ImportLine.ofText? line = some ⟨module, some comment⟩)
    (hcut : CutsInto comment origin requirement) (h : IsInvalid place module origin requirement) :
    ∃ why, (LineReading.ofLine place v line).1 = .rejected why := by
  obtain ⟨_, hne, htrim⟩ := ImportLine.forms_of_annotated hline
  obtain ⟨why, hread⟩ := dependency_of_isInvalid hne htrim hcut h
  exact ⟨why, by rw [ImportLine.ofLine_of_annotated place v hline, hread]⟩

theorem ofLine_of_not_isInvalid (v : Version)
    (hline : ImportLine.ofText? line = some ⟨module, some comment⟩)
    (hcut : CutsInto comment origin requirement)
    (h : ¬ IsInvalid place module origin requirement) :
    ∃ d events, LineReading.ofLine place v line = (.dependency d, events) ∧
      d.module = module ∧ States requirement d.constraint ∧
      (origin = [] → d = .companion d.constraint ∧ events = []) ∧
      (origin ≠ [] → ∃ rule : Origin.Rule, rule.Applies origin ∧
        rule.Gives place origin d.origin ∧
        events = if rule = .bare then [.bareShorthand] else []) := by
  obtain ⟨_, hne, htrim⟩ := ImportLine.forms_of_annotated hline
  obtain ⟨d, bare, hread, hname, hstates, hcompanion, hrule⟩ :=
    dependency_of_not_isInvalid hne htrim hcut h
  refine ⟨d, if bare then [.bareShorthand] else [], ?_, hname, hstates, fun horigin => ?_,
    fun horigin => ?_⟩
  · rw [LineReading.ofLine, hline]
    dsimp only
    rw [hread]
  · obtain ⟨hd, rfl⟩ := hcompanion horigin
    exact ⟨hd, rfl⟩
  · -- Only a bare shorthand calls for an event.
    obtain ⟨rule, happlies, hgives, rfl⟩ := hrule horigin
    exact ⟨rule, happlies, hgives, by simp⟩

/-- Every comment can stand on a line and is cut in one way, and the cut tells
    what each line with this comment says.  The line is rejected exactly if
    something is wrong with its annotation.  Otherwise it is a dependency on its
    module: its constraint is the one that is stated, and its origin is given
    by the one rule that applies, the first that the origin text matches; only the
    companion library does without an origin text. -/
theorem annotated_line_by_grammar (place : Origin.Place) (v : Version) (module comment : Text)
    (hmodule : ImportLine.IsModuleName module) (hne : comment ≠ [])
    (htrim : Cut.IsTrimmed Text.isSpacing comment) :
    (∃ line, ImportLine.ofText? line = some ⟨module, some comment⟩) ∧
    ∃ origin requirement, CutsInto comment origin requirement ∧
      (∀ origin' requirement', CutsInto comment origin' requirement' →
        origin' = origin ∧ requirement' = requirement) ∧
      ∀ line, ImportLine.ofText? line = some ⟨module, some comment⟩ →
        ((∃ why, (LineReading.ofLine place v line).1 = .rejected why) ↔
          IsInvalid place module origin requirement) ∧
        (¬ IsInvalid place module origin requirement →
          ∃ d events, LineReading.ofLine place v line = (.dependency d, events) ∧
            d.module = module ∧ States requirement d.constraint ∧
            (origin = [] → d = .companion d.constraint ∧ events = []) ∧
            (origin ≠ [] → ∃! rule : Origin.Rule, rule.Applies origin ∧
              rule.Gives place origin d.origin ∧
              events = if rule = .bare then [.bareShorthand] else [])) := by
  obtain ⟨origin, requirement, hcut, _⟩ := exists_cutsInto hne htrim
  refine ⟨⟨_, ImportLine.ofText?_plainLine hmodule hne htrim⟩, origin, requirement, hcut,
    fun _ _ => hcut.unique, fun line hline => ⟨⟨?_, ofLine_of_isInvalid v hline hcut⟩,
      fun h => ?_⟩⟩
  · -- A line with nothing wrong in it is not rejected.
    rintro ⟨why, hwhy⟩
    by_contra h
    obtain ⟨d, events, hread, _⟩ := ofLine_of_not_isInvalid v hline hcut h
    rw [hread] at hwhy
    cases hwhy
  · obtain ⟨d, events, hread, hname, hstates, hcompanion, hrule⟩ :=
      ofLine_of_not_isInvalid v hline hcut h
    refine ⟨d, events, hread, hname, hstates, hcompanion, fun horigin => ?_⟩
    obtain ⟨rule, happlies, hgives, hevents⟩ := hrule horigin
    exact ⟨rule, ⟨happlies, hgives, hevents⟩, fun other hother => hother.1.unique happlies⟩

theorem annotated_line_by_grammar_bare :
    ∃ origin requirement,
      CutsInto "mxcl/Foo.git ~> 1.0".toList origin requirement ∧
      ¬ IsInvalid ImportLine.homelessPlace "Foo".toList origin requirement ∧
      LineReading.ofLine ImportLine.homelessPlace default
          "import Foo // mxcl/Foo.git ~> 1.0".toList =
        (.dependency ⟨"Foo".toList, .shorthand "mxcl".toList (some "Foo".toList),
          .upToNextMajor ⟨1, 0, 0, [], []⟩⟩, [.bareShorthand]) := by
  have hline : ImportLine.ofText? "import Foo // mxcl/Foo.git ~> 1.0".toList =
      some ⟨"Foo".toList, some "mxcl/Foo.git ~> 1.0".toList⟩ := by decide
  obtain ⟨hmodule, hne, htrim⟩ := ImportLine.forms_of_annotated hline
  have hread : LineReading.ofLine ImportLine.homelessPlace default
      "import Foo // mxcl/Foo.git ~> 1.0".toList =
        (.dependency ⟨"Foo".toList, .shorthand "mxcl".toList (some "Foo".toList),
          .upToNextMajor ⟨1, 0, 0, [], []⟩⟩, [.bareShorthand]) := by decide
  obtain ⟨_, origin, requirement, hcut, _, hlines⟩ :=
    annotated_line_by_grammar ImportLine.homelessPlace default _ _ hmodule hne htrim
  refine ⟨origin, requirement, hcut, fun hinvalid => ?_, hread⟩
  obtain ⟨why, hwhy⟩ := (hlines _ hline).1.2 hinvalid
  rw [hread] at hwhy
  cases hwhy

/-- The companion library may come without an origin, and then no rule gives
    the origin that it gets. -/
theorem companion_needs_no_origin :
    ImportLine.ofText? "import SwiftSH_Helpers // ~> 1.0".toList =
      some ⟨companionModule, some "~> 1.0".toList⟩ ∧
    CutsInto "~> 1.0".toList [] (some (.upToNextMajor, "1.0".toList)) ∧
    ¬ IsInvalid ImportLine.homelessPlace companionModule []
      (some (.upToNextMajor, "1.0".toList)) ∧
    ∃ d, (LineReading.ofLine ImportLine.homelessPlace default
        "import SwiftSH_Helpers // ~> 1.0".toList).1 = .dependency d ∧
      ∀ rule : Origin.Rule, rule.Applies [] →
        ¬ rule.Gives ImportLine.homelessPlace [] d.origin := by
  have hline : ImportLine.ofText? "import SwiftSH_Helpers // ~> 1.0".toList =
      some ⟨companionModule, some "~> 1.0".toList⟩ := by decide
  have hread : (LineReading.ofLine ImportLine.homelessPlace default
      "import SwiftSH_Helpers // ~> 1.0".toList).1 =
        .dependency (.companion (.upToNextMajor ⟨1, 0, 0, [], []⟩)) := by decide
  have hfirst : IsFirstIn "~> 1.0".toList [] .upToNextMajor " 1.0".toList :=
    ⟨⟨rfl, '1', by decide, by decide⟩, fun _ _ _ _ => Nat.zero_le _⟩
  have hcut : CutsInto "~> 1.0".toList [] (some (.upToNextMajor, "1.0".toList)) :=
    .first hfirst (Cut.trimsTo_iff.2 rfl) (Cut.trimsTo_iff.2 (by decide))
  refine ⟨hline, hcut, fun hinvalid => ?_, _, hread, fun rule _ hgives => ?_⟩
  · obtain ⟨why, hwhy⟩ := ofLine_of_isInvalid default hline hcut hinvalid
    rw [hread] at hwhy
    cases hwhy
  · -- Only a text with a slash or an `@` in it gives a shorthand.
    generalize hblank : ([] : Text) = t at hgives
    cases hgives with
    | ownerRepo => cases hblank
    | bare => simp at hblank

end Annotation
end ScriptDeps
