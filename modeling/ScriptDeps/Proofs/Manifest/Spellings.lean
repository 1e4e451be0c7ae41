import ScriptDeps.Proofs.Import.WrittenBack
import ScriptDeps.Proofs.Path
import ScriptDeps.Proofs.Script.LineByLine
import ScriptDeps.Proofs.Script.Ways
import ScriptDeps.Proofs.Text.Words

/-! # Spellings of one repository

    A repository on the well-known host can be named in several ways
    (`Spelling`), which fall under different rules: a shorthand with or without
    the `@`, a URL, a remote.  The name of the package is stored in the first
    case and cut out of the address in the others.  All the same a manifest
    states the same entry for each of them (`exists_gives_spelling`), and so
    scripts that differ in the spelling alone share one manifest and one entry
    of the store (`spellings_share_entry`). -/

namespace ScriptDeps

/-! ## Section 1: Model -/

/-- A way to name a repository on the well-known host. -/
inductive Spelling where
  /-- `@owner/repo` -/
  | marked
  /-- `@owner/repo.git` -/
  | markedGit
  /-- `owner/repo` -/
  | bare
  /-- `https://github.com/owner/repo.git` -/
  | url
  /-- `git@github.com:owner/repo.git` -/
  | remote
deriving DecidableEq, Repr

namespace Spelling

/-- The origin as it is written. -/
def text (owner repo : Text) : Spelling → Text
  | marked => '@' :: (owner ++ '/' :: repo)
  | markedGit => '@' :: (owner ++ '/' :: (repo ++ ".git".toList))
  | bare => owner ++ '/' :: repo
  | url => "https://github.com/".toList ++ (owner ++ '/' :: (repo ++ ".git".toList))
  | remote => "git@github.com:".toList ++ (owner ++ '/' :: (repo ++ ".git".toList))

theorem text_ne_nil (owner repo : Text) (w : Spelling) : w.text owner repo ≠ [] := by
  have hslash : ∀ t : Text, owner ++ '/' :: t ≠ [] := by simp
  cases w with
  | marked | markedGit => exact List.cons_ne_nil _ _
  | bare => exact hslash _
  | url | remote => exact List.append_ne_nil_of_right_ne_nil _ (hslash _)

/-- The spellings that go with a transport.  A shorthand leaves it open. -/
def Fits (ssh : Bool) : Spelling → Prop
  | url => ssh = false
  | remote => ssh = true
  | marked | markedGit | bare => True

/-- The line imports `module` from the repository in this spelling, with `tail`
    behind it. -/
def IsOn (w : Spelling) (owner repo module tail : Text) (line : Bytes) : Prop :=
  Script.IsLine line ∧ ∃ t, Script.lineText? line = some t ∧
    ImportLine.IsAnnotated t module (w.text owner repo ++ tail)

end Spelling

/-- What stands behind an origin and requires a version: nothing, or an
    operator with its value, after any spacing. -/
inductive Annotation.Requires : Text → Option (Operator × Text) → Prop
  | nothing : Requires [] none
  | value {gap after value : Text} {op : Annotation.Operator} (hgap : ImportLine.IsSpace gap)
      (hvalue : Cut.TrimsTo Text.isSpacing after value) (hne : value ≠ []) :
      Requires (gap ++ (op.text ++ after)) (some (op, value))

/-! ## Section 2: The name of the package -/

namespace Manifest

open Origin

variable {owner repo : Text}

theorem isWord_git (hrepo : IsWord isRepoChar repo) :
    IsWord isRepoChar (repo ++ ".git".toList) :=
  (DropsGit.dropped rfl hrepo.1).isWord_iff.1 hrepo

/-- The stem of `repo.git` is `repo`, whatever dots there are in it. -/
theorem stem?_git (hrepo : IsWord isRepoChar repo) :
    (Path.ofText (repo ++ ".git".toList)).stem? = some (Utf8.encode repo) := by
  have hbytes : Utf8.encode (repo ++ ".git".toList) =
      Utf8.encode repo ++ [Path.dot, 0x67, 0x69, 0x74] := Utf8.encode_append ..
  have hne : Utf8.encode repo ≠ [] := by
    intro hnil
    exact hrepo.1 (Utf8.encode_injective hnil)
  have hplain : Path.IsPlainName (Utf8.encode (repo ++ ".git".toList)) := by
    have hslash : Path.slash ∉ Utf8.encode (repo ++ ".git".toList) := by
      intro hmem
      obtain ⟨c, hc, hcode⟩ := Utf8.exists_mem_of_mem_encode (by decide) hmem
      exact (isWord_git hrepo).ne (x := '/') rfl c hc (Char.toNat_inj.1 hcode)
    -- It does not end in a dot, so it is neither of the names that lead elsewhere.
    have hlast : (Utf8.encode (repo ++ ".git".toList)).getLast? = some 0x74 := by
      rw [hbytes]
      simp
    refine ⟨?_, hslash, ?_, ?_⟩
    all_goals
      intro heq
      rw [heq] at hlast
      exact absurd hlast (by decide)
  have hname : (Path.ofText (repo ++ ".git".toList)).fileName? =
      some (Utf8.encode (repo ++ ".git".toList)) := by
    unfold Path.fileName? Path.ofText
    rw [Path.components_plainName hplain]
    rfl
  -- The dot of `.git` is the last one.
  have hcut : Cut.splitAtLast? [Path.dot] (Utf8.encode repo ++ [Path.dot, 0x67, 0x69, 0x74]) =
      some (Utf8.encode repo, [0x67, 0x69, 0x74]) := by
    have hlast : Cut.IsLast [Path.dot] (Utf8.encode repo ++ [Path.dot] ++ [0x67, 0x69, 0x74])
        (Utf8.encode repo) [0x67, 0x69, 0x74] := (Cut.isLast_iff List.not_mem_nil).2 (by decide)
    rw [List.append_assoc] at hlast
    exact Cut.splitAtLast?_eq_some_iff.2 hlast
  rw [Path.stem?, hname, hbytes]
  show some (Path.cutName _).1 = _
  unfold Path.cutName
  rw [hcut]
  cases hstem : Utf8.encode repo with
  | nil => exact absurd hstem hne
  | cons b bs => rfl

/-- The last name of an address that ends in `.git` is told without it. -/
theorem lastStem_git {front : Text} (hrepo : IsWord isRepoChar repo) :
    lastStem (front ++ '/' :: (repo ++ ".git".toList)) = repo := by
  -- There is no slash at the end, so nothing is trimmed.
  have htrim : Cut.trimEnd (· = '/') (front ++ '/' :: (repo ++ ".git".toList)) =
      front ++ '/' :: (repo ++ ".git".toList) := by
    have hconcat : front ++ '/' :: (repo ++ ".git".toList) =
        (front ++ '/' :: (repo ++ ['.', 'g', 'i'])) ++ ['t'] := by simp
    rw [hconcat]
    generalize front ++ '/' :: (repo ++ ['.', 'g', 'i']) = start
    have hrun : Cut.trimEnd (· = '/') ((start ++ ['t']) ++ []) = start ++ ['t'] :=
      Cut.trimEnd_run (by simp) (by simp)
    rwa [List.append_nil] at hrun
  have hfree : ∀ c ∈ repo ++ ".git".toList, decide (c = '/') = false := by
    intro c hc
    exact decide_eq_false ((isWord_git hrepo).ne rfl c hc)
  have hlast : (Cut.pieces (· = '/') (front ++ '/' :: (repo ++ ".git".toList))).getLastD
      (front ++ '/' :: (repo ++ ".git".toList)) = repo ++ ".git".toList := by
    rw [Cut.pieces_append_mark (by simp), Cut.pieces_of_forall hfree]
    simp
  unfold lastStem
  dsimp only
  rw [htrim, hlast, stem?_git hrepo]
  exact Utf8.decodeLossy_encode repo

/-- What a manifest states for a repository on the well-known host. -/
def hostEntry (ssh : Bool) (owner repo module : Text) (c : Constraint) : Entry :=
  ⟨.url (hostUrl ssh owner repo) (requirementOf c), module, repo⟩

theorem entryOf_url (hrepo : IsWord isRepoChar repo) (module : Text) (c : Constraint) :
    entryOf false ⟨module, .url (Spelling.url.text owner repo), c⟩ =
      hostEntry false owner repo module c := by
  have haddress : Spelling.url.text owner repo =
      ("https://github.com/".toList ++ owner) ++ '/' :: (repo ++ ".git".toList) :=
    (List.append_assoc ..).symm
  have hhost : hostUrl false owner repo = Spelling.url.text owner repo := by
    unfold hostUrl
    rw [if_neg (by decide), List.append_assoc, List.append_assoc, List.append_assoc]
    rfl
  have hpackage : packageOf ⟨module, .url (Spelling.url.text owner repo), c⟩ = repo := by
    show lastStem (Spelling.url.text owner repo) = repo
    rw [haddress]
    exact lastStem_git hrepo
  rw [entryOf, hpackage, hostEntry, hhost]
  rfl

theorem entryOf_remote (hrepo : IsWord isRepoChar repo) (module : Text) (c : Constraint) :
    entryOf true ⟨module, .remote (Spelling.remote.text owner repo), c⟩ =
      hostEntry true owner repo module c := by
  have hhost : hostUrl true owner repo = Spelling.remote.text owner repo := by
    unfold hostUrl
    rw [if_pos rfl, List.append_assoc, List.append_assoc, List.append_assoc]
    rfl
  -- The host ends at the colon, and what follows is a path like that of a URL.
  have hsplit : Cut.splitFirst (· = ':') (Spelling.remote.text owner repo) =
      some ("git@github.com".toList, owner ++ '/' :: (repo ++ ".git".toList)) := by
    have hfree : "git@github.com".toList.all (· ≠ ':') = true := by decide
    exact Cut.splitFirst_mark_iff.2 ⟨rfl, fun c hc => by simpa using List.all_eq_true.1 hfree c hc⟩
  have hpackage : packageOf ⟨module, .remote (Spelling.remote.text owner repo), c⟩ = repo := by
    unfold packageOf
    dsimp only
    rw [hsplit]
    exact lastStem_git hrepo
  rw [entryOf, hpackage, hostEntry, hhost]
  rfl

end Manifest

/-! ## Section 3: Reading the spellings -/

namespace Origin

variable {place : Place} {owner repo : Text} {w : Spelling} {c : Char}

/-- The characters of a spelling. -/
def isSpellingChar (c : Char) : Bool := isRemotePathChar c || c = '@' || c = ':'

theorem isRemotePathChar_of_isOwnerChar (h : isOwnerChar c = true) :
    isRemotePathChar c = true := by
  simp only [isOwnerChar, Bool.or_eq_true] at h
  simp only [isRemotePathChar, isRepoChar, Bool.or_eq_true]
  tauto

/-- An owner and a repository with a slash between them make up a path. -/
theorem isWord_ownerRepo (howner : IsWord isOwnerChar owner) (hrepo : IsWord isRepoChar repo) :
    IsWord isRemotePathChar (owner ++ '/' :: repo) := by
  refine ⟨by simp, ?_⟩
  intro c hc
  rcases List.mem_append.1 hc with hc | hc
  · exact isRemotePathChar_of_isOwnerChar (howner.2 c hc)
  · rcases List.mem_cons.1 hc with rfl | hc
    · rfl
    · simp [isRemotePathChar, hrepo.2 c hc]

/-- A spelling has no operator in it, and nothing that a URL must not have. -/
theorem plain_of_isSpellingChar (h : isSpellingChar c = true) :
    (c ≠ '~' ∧ c ≠ '=') ∧ Text.isBlank c = false ∧ Text.isControl c = false := by
  simp only [isSpellingChar, isRemotePathChar, isRepoChar, Bool.or_eq_true,
    decide_eq_true_eq] at h
  rcases h with (((((h | rfl) | rfl) | rfl) | rfl) | rfl) | rfl
  · have hrange := Text.toNat_of_isLetterOrDigit h
    refine ⟨⟨?_, ?_⟩, Text.isBlank_of_printable (by omega) (by omega), ?_⟩
    · rintro rfl
      exact absurd h (by decide)
    · rintro rfl
      exact absurd h (by decide)
    · simp [Text.isControl]
      omega
  all_goals decide

theorem isSpellingChar_of_mem (howner : IsWord isOwnerChar owner) (hrepo : IsWord isRepoChar repo)
    (hc : c ∈ w.text owner repo) : isSpellingChar c = true := by
  have hpath : ∀ c ∈ owner ++ '/' :: repo, isSpellingChar c = true := by
    intro c hc
    simp [isSpellingChar, (isWord_ownerRepo howner hrepo).2 c hc]
  have hgit : ∀ c ∈ owner ++ '/' :: (repo ++ ".git".toList), isSpellingChar c = true := by
    intro c hc
    simp [isSpellingChar, (isWord_ownerRepo howner (Manifest.isWord_git hrepo)).2 c hc]
  cases w with
  | marked =>
    rcases List.mem_cons.1 hc with rfl | hc
    · rfl
    · exact hpath c hc
  | markedGit =>
    rcases List.mem_cons.1 hc with rfl | hc
    · rfl
    · exact hgit c hc
  | bare => exact hpath c hc
  | url =>
    have hfront : ∀ c ∈ "https://github.com/".toList, isSpellingChar c = true :=
      List.all_eq_true.1 (by decide)
    rcases List.mem_append.1 hc with hc | hc
    · exact hfront c hc
    · exact hgit c hc
  | remote =>
    have hfront : ∀ c ∈ "git@github.com:".toList, isSpellingChar c = true :=
      List.all_eq_true.1 (by decide)
    rcases List.mem_append.1 hc with hc | hc
    · exact hfront c hc
    · exact hgit c hc

/-- A text that does not start with `@` is no shorthand. -/
theorem not_matches_shorthand {t : Text} (h : t.head? ≠ some '@') : ¬ Rule.shorthand.Matches t := by
  intro hmatches
  cases hmatches with
  | owner => exact h rfl
  | ownerRepo => exact h rfl

/-- A text without `@` is no remote. -/
theorem not_matches_remote {t : Text} (h : '@' ∉ t) : ¬ Rule.remote.Matches t := by
  intro hmatches
  cases hmatches with
  | remote => exact h (by simp)

/-- A text with a colon is no bare shorthand. -/
theorem not_matches_bare {t : Text} (h : ':' ∈ t) : ¬ Rule.bare.Matches t := by
  intro hmatches
  cases hmatches with
  | bare howner hrepo =>
    rcases List.mem_append.1 h with hmem | hmem
    · exact howner.ne rfl _ hmem rfl
    · rcases List.mem_cons.1 hmem with heq | hmem
      · exact absurd heq (by decide)
      · exact hrepo.ne rfl _ hmem rfl

/-- The first of the rules applies wherever it matches. -/
theorem applies_shorthand {t : Text} (h : Rule.shorthand.Matches t) : Rule.shorthand.Applies t := by
  refine ⟨h, ?_⟩
  intro earlier hlt
  exact absurd hlt (Nat.not_lt_zero _)

theorem applies_bare (howner : IsWord isOwnerChar owner) (hrepo : IsWord isRepoChar repo) :
    Rule.bare.Applies (owner ++ '/' :: repo) := by
  have hfree : '@' ∉ owner ++ '/' :: repo := by
    intro hmem
    exact (isWord_ownerRepo howner hrepo).ne rfl _ hmem rfl
  refine ⟨.bare howner hrepo, ?_⟩
  intro earlier hlt
  cases earlier with
  | shorthand =>
    apply not_matches_shorthand
    intro hhead
    exact hfree (List.mem_of_mem_head? hhead)
  | remote => exact not_matches_remote hfree
  | bare | url | directory => exact absurd hlt (by decide)

theorem matches_url : Rule.url.Matches (Spelling.url.text owner repo) :=
  @Rule.Matches.url 'h' "ttps".toList _ rfl (List.all_eq_true.1 (by decide))

theorem applies_url (howner : IsWord isOwnerChar owner) (hrepo : IsWord isRepoChar repo) :
    Rule.url.Applies (Spelling.url.text owner repo) := by
  refine ⟨matches_url, ?_⟩
  intro earlier hlt
  cases earlier with
  | shorthand =>
    apply not_matches_shorthand
    show some 'h' ≠ some '@'
    decide
  | remote =>
    apply not_matches_remote
    intro hmem
    rcases List.mem_append.1 hmem with hmem | hmem
    · exact absurd hmem (by decide)
    · exact (isWord_ownerRepo howner (Manifest.isWord_git hrepo)).ne rfl _ hmem rfl
  | bare =>
    apply not_matches_bare
    exact List.mem_append_left _ (by decide)
  | url | directory => exact absurd hlt (by decide)

theorem applies_remote (howner : IsWord isOwnerChar owner) (hrepo : IsWord isRepoChar repo) :
    Rule.remote.Applies (Spelling.remote.text owner repo) := by
  refine ⟨@Rule.Matches.remote "git".toList "github.com".toList _ (isWord_iff.1 (by decide))
    (isWord_iff.1 (by decide)) (isWord_ownerRepo howner (Manifest.isWord_git hrepo)), ?_⟩
  intro earlier hlt
  cases earlier with
  | shorthand =>
    apply not_matches_shorthand
    show some 'g' ≠ some '@'
    decide
  | remote | bare | url | directory => exact absurd hlt (by decide)

/-- Each spelling falls under a rule, and with a transport that it goes with
    the rule gives an origin whose entry is that of the repository. -/
theorem exists_gives_spelling (place : Place) (howner : IsWord isOwnerChar owner)
    (hrepo : IsWord isRepoChar repo) (hgit : ¬ ".git".toList <:+ repo) (w : Spelling) :
    ∃ rule : Rule, rule.Applies (w.text owner repo) ∧
      ∃ origin, rule.Gives place (w.text owner repo) origin ∧
        ∀ ssh, w.Fits ssh → ∀ module c,
          Manifest.entryOf ssh ⟨module, origin, c⟩ =
            Manifest.hostEntry ssh owner repo module c := by
  -- A shorthand is stored as the repository, whether or not `.git` was dropped from it.
  have hkept : DropsGit repo repo := by
    apply DropsGit.kept
    intro stem _ heq
    exact hgit ⟨stem, heq.symm⟩
  have hdropped : DropsGit (repo ++ ".git".toList) repo := .dropped rfl hrepo.1
  have hrepoGit := Manifest.isWord_git hrepo
  cases w with
  | marked =>
    refine ⟨.shorthand, applies_shorthand (.ownerRepo howner hrepo), _,
      .ownerRepo howner hrepo hkept, ?_⟩
    intro ssh _ module c
    rfl
  | markedGit =>
    refine ⟨.shorthand, applies_shorthand (.ownerRepo howner hrepoGit), _,
      .ownerRepo howner hrepoGit hdropped, ?_⟩
    intro ssh _ module c
    rfl
  | bare =>
    refine ⟨.bare, applies_bare howner hrepo, _, .bare howner hrepo hkept, ?_⟩
    intro ssh _ module c
    rfl
  | url =>
    refine ⟨.url, applies_url howner hrepo, _, .url matches_url ?_, ?_⟩
    · intro c hc
      exact (plain_of_isSpellingChar (isSpellingChar_of_mem howner hrepo hc)).2
    · intro ssh hfits module c
      obtain rfl : ssh = false := hfits
      exact Manifest.entryOf_url hrepo module c
  | remote =>
    have happlies := applies_remote howner hrepo
    refine ⟨.remote, happlies, _, .remote happlies.1, ?_⟩
    intro ssh hfits module c
    obtain rfl : ssh = true := hfits
    exact Manifest.entryOf_remote hrepo module c

end Origin

/-! ## Section 4: What stands behind a spelling -/

namespace Annotation

variable {t before after tail owner repo module : Text} {op : Operator}
  {requirement : Option (Operator × Text)} {place : Origin.Place} {w : Spelling}

/-- A text in which no operator can start does not hide the one behind it. -/
theorem isFirstIn_of_forall (h : ∀ c ∈ t, c ≠ '~' ∧ c ≠ '=')
    (hvalue : ∃ c ∈ after, Text.isSpacing c = false) :
    IsFirstIn (t ++ (op.text ++ after)) t op after := by
  refine ⟨⟨rfl, hvalue⟩, ?_⟩
  intro before' op' after' hstands
  rcases List.append_eq_append_iff.1 hstands.1 with ⟨front, rfl, _⟩ | ⟨back, rfl, hrest⟩
  · simp
  · -- An operator further in front would start in `t`.
    cases back with
    | nil => simp
    | cons d back =>
      have hd := h d (by simp)
      cases op' with
      | upToNextMajor => exact absurd (List.cons.inj hrest).1.symm hd.1
      | exact => exact absurd (List.cons.inj hrest).1.symm hd.2

/-- What requires a version is cut off from an origin in which no operator can start. -/
theorem Requires.cutsInto (htail : Requires tail requirement)
    (h : ∀ c ∈ t, c ≠ '~' ∧ c ≠ '=') (htrim : Cut.IsTrimmed Text.isSpacing t) :
    CutsInto (t ++ tail) t requirement := by
  cases htail with
  | nothing =>
    rw [List.append_nil]
    exact (hasNoOperator_of_forall h).cutsInto
  | @value gap after value op hgap hvalue hne =>
    -- The operator is the first one, for none can start in the origin or in the gap.
    have hgapChar : ∀ c ∈ t ++ gap, c ≠ '~' ∧ c ≠ '=' := by
      intro c hc
      rcases List.mem_append.1 hc with hc | hc
      · exact h c hc
      · constructor
        · rintro rfl
          exact absurd (hgap _ hc) (by decide)
        · rintro rfl
          exact absurd (hgap _ hc) (by decide)
    have hsome : ∃ c ∈ after, Text.isSpacing c = false := by
      by_contra hnone
      apply hne
      rw [← Cut.trimsTo_iff.1 hvalue, Cut.trim_eq_nil_iff]
      simpa using hnone
    have hfirst : IsFirstIn (t ++ gap ++ (op.text ++ after)) (t ++ gap) op after :=
      isFirstIn_of_forall hgapChar hsome
    rw [List.append_assoc] at hfirst
    exact .first hfirst ⟨[], gap, rfl, nofun, hgap, htrim⟩ hvalue

/-- What a comment with a spelling in front declares. -/
theorem exists_dependency_of_spelling (place : Origin.Place)
    (howner : Origin.IsWord Origin.isOwnerChar owner)
    (hrepo : Origin.IsWord Origin.isRepoChar repo) (hgit : ¬ ".git".toList <:+ repo)
    (htail : Requires tail requirement) (module : Text)
    (htrim : Cut.IsTrimmed Text.isSpacing (w.text owner repo ++ tail)) :
    ∃ origin bare, (∀ ssh, w.Fits ssh → ∀ c,
        Manifest.entryOf ssh ⟨module, origin, c⟩ = Manifest.hostEntry ssh owner repo module c) ∧
      dependency place module (w.text owner repo ++ tail) =
        (constraint requirement).map fun c => (⟨module, origin, c⟩, bare) := by
  obtain ⟨rule, happlies, origin, hgives, hentry⟩ :=
    Origin.exists_gives_spelling place howner hrepo hgit w
  have hchar := fun c hc =>
    Origin.plain_of_isSpellingChar (Origin.isSpellingChar_of_mem (w := w) (c := c) howner hrepo hc)
  have hne := w.text_ne_nil owner repo
  have hspelling : Cut.IsTrimmed Text.isSpacing (w.text owner repo) := by
    apply Cut.isTrimmed_of_forall
    intro c hc
    rw [Text.isSpacing, (hchar c hc).2.1, Bool.false_and]
  have hcut := htail.cutsInto (fun c hc => (hchar c hc).1) hspelling
  refine ⟨origin, decide (rule = .bare), fun ssh hfits => hentry ssh hfits module, ?_⟩
  rw [dependency_of_cutsInto (by simp [hne]) htrim hcut]
  cases constraint requirement with
  | error why => rfl
  | ok c =>
    dsimp only
    rw [if_neg hne, Origin.ofText_of_gives happlies hgives]
    rfl

end Annotation

namespace Script

open Annotation

variable {owner repo module tail : Text} {requirement : Option (Operator × Text)}
  {ctx : Context} {line : Bytes} {w : Spelling}

/-! ## Section 5: Scripts -/

/-- What a line with a spelling declares: nothing if the constraint is no
    constraint, and else what a manifest states as the entry of the repository. -/
theorem entry_readLine_of_spelling (ctx : Context) (howner : Origin.IsWord Origin.isOwnerChar owner)
    (hrepo : Origin.IsWord Origin.isRepoChar repo) (hgit : ¬ ".git".toList <:+ repo)
    (htail : Requires tail requirement) {ssh : Bool} (hfits : w.Fits ssh)
    (hline : w.IsOn owner repo module tail line) :
    (readLine ctx line).1.map (Manifest.entryOf ssh) =
      (constraint requirement).toOption.map (Manifest.hostEntry ssh owner repo module) := by
  obtain ⟨_, t, htext, hannotated⟩ := hline
  have himport := ImportLine.isAnnotated_iff.1 hannotated
  obtain ⟨_, _, htrim⟩ := ImportLine.forms_of_annotated himport
  obtain ⟨origin, bare, hentry, hdependency⟩ :=
    exists_dependency_of_spelling ctx.place howner hrepo hgit htail module htrim
  rw [readLine_eq htext, ImportLine.ofLine_of_annotated ctx.place ctx.toolVersion himport,
    hdependency]
  cases constraint requirement with
  | error why => rfl
  | ok c => exact congrArg some (hentry ssh hfits c)

/-- What a script declares around one of its lines. -/
theorem dependencies_around {a b : Bytes} (ha : EndsLine a) (hline : IsLine line)
    (hend : EndsLine line ∨ b = []) (ctx : Context) :
    (scan ctx (a ++ (line ++ b))).dependencies =
      (scan ctx a).dependencies ++ ((readLine ctx line).1.toList ++ (scan ctx b).dependencies) := by
  rw [(scan_append ha ctx _).1, ← (scan_line hline ctx).1]
  rcases hend with hend | rfl
  · rw [(scan_append hend ctx b).1]
  · simp [scan, lines]

/-- Scripts that differ in the spelling of one repository alone have the same
    manifest, wherever the line stands, and are prepared in the same entry of
    the store.  What the line adds to the manifest is the address of the
    repository over the chosen transport, the stated requirement, the module,
    and the repository as the package. -/
theorem spellings_share_entry (owner repo module : Text) (requirement : Option (Operator × Text))
    (howner : Origin.IsWord Origin.isOwnerChar owner)
    (hrepo : Origin.IsWord Origin.isRepoChar repo) (hgit : ¬ ".git".toList <:+ repo)
    (ctx : Context) (o : Prepare.Options) (a b : Bytes) (ha : EndsLine a) :
    ∃ m : Manifest, ∀ (w : Spelling) (tail : Text) (line : Bytes), w.Fits o.ssh →
      Requires tail requirement → w.IsOn owner repo module tail line → EndsLine line ∨ b = [] →
      (∀ c, States requirement c → ∃ d, (readLine ctx line).1 = some d ∧
        Manifest.entryOf o.ssh d =
          ⟨.url (Manifest.hostUrl o.ssh owner repo) (Manifest.requirementOf c), module, repo⟩) ∧
      ((∀ c, ¬ States requirement c) → (readLine ctx line).1 = none) ∧
      Prepare.manifestFor o (scan ctx (a ++ (line ++ b))).dependencies = m ∧
      ∀ homes source s h m₀ m₁, (Prepare.scan homes source).run h m₀ =
          (.ok (scan ctx (a ++ (line ++ b)), a ++ (line ++ b)), m₁) →
        ((scan ctx (a ++ (line ++ b))).dependencies.isEmpty && o.skipPackage) = false →
        .makeDirectories (s.entry m.hash) ∈ (prepare homes o s source).requests h m₀ ∧
        ((prepare homes o s source).run h m₀).1.map (fun p => (p.args, p.record)) =
          ((Prepare.record o s m).run h m₁).1.map fun r => (r.args, some r) := by
  -- The manifest depends on the entries alone, and those of the line are the same.
  let found := (constraint requirement).toOption.map (Manifest.hostEntry o.ssh owner repo module)
  let entries := fun content => (scan ctx content).dependencies.map (Manifest.entryOf o.ssh)
  refine ⟨⟨Utf8.encode (Manifest.render o.platform (entries a ++ (found.toList ++ entries b)))⟩, ?_⟩
  intro w tail line hfits htail hline hend
  have hentry : (readLine ctx line).1.map (Manifest.entryOf o.ssh) = found :=
    entry_readLine_of_spelling ctx howner hrepo hgit htail hfits hline
  have hmanifest : Prepare.manifestFor o (scan ctx (a ++ (line ++ b))).dependencies =
      ⟨Utf8.encode (Manifest.render o.platform (entries a ++ (found.toList ++ entries b)))⟩ := by
    unfold Prepare.manifestFor Manifest.ofDependencies manifestText
    rw [dependencies_around ha hline.1 hend ctx, List.map_append, List.map_append, ← hentry]
    cases (readLine ctx line).1 <;> rfl
  refine ⟨?_, ?_, hmanifest, ?_⟩
  · intro c hstates
    rw [show found = some (Manifest.hostEntry o.ssh owner repo module c) by
      simp only [found, constraint_eq_ok_iff.2 hstates]; rfl] at hentry
    obtain ⟨d, hread, hd⟩ := Option.map_eq_some_iff.1 hentry
    exact ⟨d, hread, hd⟩
  · intro hnone
    have hfound : found = none := by
      cases hconstraint : constraint requirement with
      | error why => simp only [found, hconstraint]; rfl
      | ok c => exact absurd (constraint_eq_ok_iff.1 hconstraint) (hnone c)
    rw [hfound] at hentry
    exact Option.map_eq_none_iff.1 hentry
  · intro homes source s h m₀ m₁ hscan hbusy
    rw [← hmanifest]
    exact ⟨makeDirectories_mem_requests hscan hbusy, Prepare.result_prepare hscan hbusy⟩

/-- An import from a repository whose name has a dot in it. -/
def dottedImport (w : Spelling) : Text :=
  "import Foo // ".toList ++ (w.text "alice".toList "swift.foo".toList ++ " ~> 1.0".toList)

/-- The script of that one line. -/
def dottedLine (w : Spelling) : Bytes := Utf8.encode (dottedImport w ++ ['\n'])

/-- Over HTTPS all four spellings share the entry, and over SSH the shorthand
    and the remote do. -/
theorem spellings_share_entry_dotted :
    let ctx : Context := ⟨⟨"/", none, fun _ => none⟩, toolVersion⟩
    (∀ w : Spelling, w.IsOn "alice".toList "swift.foo".toList "Foo".toList " ~> 1.0".toList
      (dottedLine w) ∧ EndsLine (dottedLine w)) ∧
    (∃ m : Manifest, ∀ w ∈ [Spelling.marked, .markedGit, .bare, .url],
      (∃ d, (readLine ctx (dottedLine w)).1 = some d ∧ Manifest.entryOf false d =
        ⟨.url (Manifest.hostUrl false "alice".toList "swift.foo".toList)
          (Manifest.requirementOf (.upToNextMajor ⟨1, 0, 0, [], []⟩)), "Foo".toList,
          "swift.foo".toList⟩) ∧
      .makeDirectories (Prepare.smallStore.entry m.hash) ∈
        (prepare Prepare.smallHomes Prepare.smallOptions Prepare.smallStore (.ofStdin "/")).requests
          (Scripted.bare 0 [] (dottedLine w) "/t" []) ⟨.empty, []⟩) ∧
    ∃ m : Manifest, ∀ w ∈ [Spelling.marked, .remote],
      Prepare.manifestFor { Prepare.smallOptions with ssh := true }
        (scan ctx (dottedLine w)).dependencies = m := by
  intro ctx
  have hlines : ∀ w : Spelling, w.IsOn "alice".toList "swift.foo".toList "Foo".toList
      " ~> 1.0".toList (dottedLine w) ∧ EndsLine (dottedLine w) := by
    intro w
    refine ⟨⟨⟨?_, ?_⟩, dottedImport w, ?_, ImportLine.isAnnotated_iff.2 ?_⟩, .inr ?_⟩
    all_goals
      cases w <;> decide +kernel
  have hstates : States (some (.upToNextMajor, "1.0".toList))
      (.upToNextMajor ⟨1, 0, 0, [], []⟩) := constraint_eq_ok_iff.1 (by decide)
  have htail : Requires " ~> 1.0".toList (some (.upToNextMajor, "1.0".toList)) :=
    @Requires.value " ".toList " 1.0".toList "1.0".toList .upToNextMajor
      (List.all_eq_true.1 (by decide)) (Cut.trimsTo_iff.2 (by decide)) (by decide)
  have howner : Origin.IsWord Origin.isOwnerChar "alice".toList := Origin.isWord_iff.1 (by decide)
  have hrepo : Origin.IsWord Origin.isRepoChar "swift.foo".toList :=
    Origin.isWord_iff.1 (by decide)
  refine ⟨hlines, ?_, ?_⟩
  · obtain ⟨m, hm⟩ := spellings_share_entry _ _ "Foo".toList _ howner hrepo (by decide) ctx
      Prepare.smallOptions [] [] (.inl rfl)
    refine ⟨m, fun w hw => ?_⟩
    have hfits : ∀ w ∈ [Spelling.marked, .markedGit, .bare, .url], w.Fits false := by
      simp [Spelling.Fits]
    obtain ⟨hentry, _, _, hprepare⟩ := hm w _ _ (hfits w hw) htail (hlines w).1 (.inr rfl)
    rw [List.nil_append, List.append_nil] at hprepare
    obtain ⟨m₁, hscan⟩ := Prepare.run_scan_ofStdin Prepare.smallHomes "/"
      (Scripted.bare 0 [] (dottedLine w) "/t" []) ⟨.empty, []⟩
    obtain ⟨d, hread, hd⟩ := hentry _ hstates
    have hbusy : (scan ctx (dottedLine w)).dependencies.isEmpty = false := by
      rw [(scan_line (hlines w).1.1 ctx).1, hread]
      rfl
    exact ⟨⟨d, hread, hd⟩, (hprepare _ _ _ _ _ _ hscan (by rw [hbusy]; rfl)).1⟩
  · obtain ⟨m, hm⟩ := spellings_share_entry _ _ "Foo".toList _ howner hrepo (by decide) ctx
      { Prepare.smallOptions with ssh := true } [] [] (.inl rfl)
    refine ⟨m, fun w hw => ?_⟩
    have hfits : ∀ w ∈ [Spelling.marked, .remote], w.Fits true := by simp [Spelling.Fits]
    have hmanifest := (hm w _ _ (hfits w hw) htail (hlines w).1 (.inr rfl)).2.2.1
    rwa [List.nil_append, List.append_nil] at hmanifest

end Script
end ScriptDeps
