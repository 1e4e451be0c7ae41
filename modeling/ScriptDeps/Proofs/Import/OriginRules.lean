import Mathlib.Data.List.TakeDrop
import ScriptDeps.Dependency.OriginText
import ScriptDeps.Proofs.Text.Trim

/-! # The rules for origins

    An origin has one of five forms, which overlap.  `Rule.Matches` tells the
    texts of each form and `Rule.Applies` that no earlier form is matched; what
    the rule makes of a text is `Rule.Gives`, and why it may turn it down
    `Rule.Refuses`.  The reading does what the rule that applies says
    (`ofText_eq_ok_iff`, `ofText_eq_error_iff`). -/

namespace ScriptDeps
namespace Origin

open Cut

/-! ## Section 1: Model -/

/-- One or more characters of a class. -/
def IsWord (p : Char → Bool) (t : Text) : Prop := t ≠ [] ∧ ∀ c ∈ t, p c = true

/-- The forms of an origin. -/
inductive Rule where
  | shorthand
  | remote
  | bare
  | url
  | directory
deriving DecidableEq, Repr

/-- The place of a form in the order in which they are tried. -/
def Rule.rank : Rule → Nat
  | .shorthand => 0
  | .remote => 1
  | .bare => 2
  | .url => 3
  | .directory => 4

/-- The texts of a form. -/
inductive Rule.Matches : Rule → Text → Prop where
  | owner {owner : Text} (howner : IsWord isOwnerChar owner) : Matches .shorthand ('@' :: owner)
  | ownerRepo {owner repo : Text} (howner : IsWord isOwnerChar owner)
      (hrepo : IsWord isRepoChar repo) : Matches .shorthand ('@' :: (owner ++ '/' :: repo))
  | remote {user host path : Text} (huser : IsWord Text.isLetterOrDigit user)
      (hhost : IsWord isHostChar host) (hpath : IsWord isRemotePathChar path) :
      Matches .remote (user ++ '@' :: (host ++ ':' :: path))
  | bare {owner repo : Text} (howner : IsWord isOwnerChar owner) (hrepo : IsWord isRepoChar repo) :
      Matches .bare (owner ++ '/' :: repo)
  | url {first : Char} {scheme rest : Text} (hfirst : Text.isLetter first = true)
      (hscheme : ∀ c ∈ scheme, isSchemeChar c = true) :
      Matches .url (first :: (scheme ++ ':' :: rest))
  | directory (t : Text) : Matches .directory t

/-- `rule` is the first one that `t` matches. -/
def Rule.Applies (rule : Rule) (t : Text) : Prop :=
  rule.Matches t ∧ ∀ earlier : Rule, earlier.rank < rule.rank → ¬ earlier.Matches t

/-- The name of the repository that is written `raw`: one final `.git` is
    dropped unless nothing would remain. -/
inductive DropsGit : Text → Text → Prop where
  | dropped {raw repo : Text} (hraw : raw = repo ++ ".git".toList) (h : repo ≠ []) :
      DropsGit raw repo
  | kept {raw : Text} (h : ∀ repo, repo ≠ [] → raw ≠ repo ++ ".git".toList) : DropsGit raw raw

/-- `t` starts with `~user`, and `tail` comes after that.  The name of the user
    goes up to the first slash and may be empty. -/
def NamesHome (t user tail : Text) : Prop :=
  t = '~' :: (user ++ tail) ∧ (∀ c ∈ user, c ≠ '/') ∧ ∀ c ∈ tail.head?, c = '/'

/-- The home directory of a user; an empty name is that of whoever asks. -/
def Place.homeFor? (place : Place) (user : Text) : Option Path :=
  if user = [] then place.home? else place.homeOf? user

/-- The path that `t` is written for. -/
inductive ExpandsTo (place : Place) (t : Text) : Path → Prop where
  | plain (h : t.head? ≠ some '~') : ExpandsTo place t (Path.ofText t)
  | home {user tail : Text} {home : Path} (h : NamesHome t user tail)
      (hhome : place.homeFor? user = some home) :
      ExpandsTo place t ⟨home.bytes ++ Utf8.encode tail⟩

/-- The origin that a rule makes of a text. -/
inductive Rule.Gives (place : Place) : Rule → Text → Origin → Prop where
  | owner {owner : Text} (howner : IsWord isOwnerChar owner) :
      Gives place .shorthand ('@' :: owner) (.shorthand owner none)
  | ownerRepo {owner raw repo : Text} (howner : IsWord isOwnerChar owner)
      (hraw : IsWord isRepoChar raw) (hrepo : DropsGit raw repo) :
      Gives place .shorthand ('@' :: (owner ++ '/' :: raw)) (.shorthand owner (some repo))
  | remote {t : Text} (h : Rule.remote.Matches t) : Gives place .remote t (.remote t)
  | bare {owner raw repo : Text} (howner : IsWord isOwnerChar owner)
      (hraw : IsWord isRepoChar raw) (hrepo : DropsGit raw repo) :
      Gives place .bare (owner ++ '/' :: raw) (.shorthand owner (some repo))
  | url {t : Text} (h : Rule.url.Matches t)
      (hclean : ∀ c ∈ t, Text.isBlank c = false ∧ Text.isControl c = false) :
      Gives place .url t (.url t)
  | directory {t : Text} {path : Path} (h : ExpandsTo place t path) :
      Gives place .directory t (.directory path place.folder)

/-- Why a rule turns down a text that matches its form. -/
inductive Rule.Refuses (place : Place) : Rule → Text → Refusal → Prop where
  | malformedUrl {t : Text} {c : Char} (hmem : c ∈ t)
      (hc : Text.isBlank c = true ∨ Text.isControl c = true) :
      Refuses place .url t (.malformedUrl t)
  | unknownHome {t user tail : Text} (h : NamesHome t user tail)
      (hhome : place.homeFor? user = none) :
      Refuses place .directory t (if user = [] then .noHome else .unknownUser user)

variable {place : Place} {rule : Rule} {t owner raw repo : Text} {origin : Origin}

/-! ## Section 2: Words and repositories -/

theorem isWord_iff {p : Char → Bool} : isWord p t = true ↔ IsWord p t := by
  simp [isWord, IsWord]

/-- A word has no character outside its class. -/
theorem IsWord.ne {p : Char → Bool} (h : IsWord p t) {x : Char} (hx : p x = false) :
    ∀ c ∈ t, c ≠ x := by
  rintro c hc rfl
  rw [h.2 c hc] at hx
  cases hx

theorem dropGit_eq_iff : dropGit raw = repo ↔ DropsGit raw repo := by
  constructor
  · rintro rfl
    unfold dropGit
    -- A name of nothing but the suffix keeps it, as one without the suffix does.
    split
    · next hbefore =>
      refine .kept fun repo hne heq => hne ?_
      exact List.append_cancel_right (heq.symm.trans (before?_eq_some_iff.1 hbefore))
    · next hbefore =>
      refine .kept fun repo _ heq => ?_
      rw [before?_eq_some_iff.2 heq] at hbefore
      cases hbefore
    · next hstem hbefore => exact .dropped (before?_eq_some_iff.1 hbefore) hstem
  · intro h
    unfold dropGit
    cases h with
    | dropped hraw hne =>
      rw [before?_eq_some_iff.2 hraw]
      cases repo with
      | nil => exact absurd rfl hne
      | cons c repo => rfl
    | kept hnone =>
      split
      · rfl
      · rfl
      · next hstem hbefore => exact absurd (before?_eq_some_iff.1 hbefore) (hnone _ hstem)

/-- What is left of a repository name is one exactly if all of it is. -/
theorem DropsGit.isWord_iff (h : DropsGit raw repo) :
    IsWord isRepoChar repo ↔ IsWord isRepoChar raw := by
  cases h with
  | kept => exact Iff.rfl
  | dropped hraw hne =>
    have hgit : ∀ c ∈ ".git".toList, isRepoChar c = true := List.all_eq_true.1 (by decide)
    rw [hraw]
    constructor
    · intro h
      refine ⟨by simp, fun c hc => ?_⟩
      exact (List.mem_append.1 hc).elim (h.2 c) (hgit c)
    · intro h
      exact ⟨hne, fun c hc => h.2 c (List.mem_append_left _ hc)⟩

theorem ownerRepo?_eq_some_iff : ownerRepo? t = some (owner, repo) ↔
    ∃ raw, t = owner ++ '/' :: raw ∧ IsWord isOwnerChar owner ∧ IsWord isRepoChar raw ∧
      DropsGit raw repo := by
  unfold ownerRepo?
  constructor
  · intro h
    split at h
    · cases h
    · next owner' raw hsplit =>
      obtain ⟨ht, _⟩ := splitFirst_mark_iff.1 hsplit
      dsimp only at h
      split at h
      · next hwords =>
        cases h
        rw [Bool.and_eq_true, isWord_iff, isWord_iff] at hwords
        have hdrops : DropsGit raw (dropGit raw) := dropGit_eq_iff.1 rfl
        exact ⟨raw, ht, hwords.1, hdrops.isWord_iff.1 hwords.2, hdrops⟩
      · cases h
  · rintro ⟨raw, rfl, howner, hraw, hdrops⟩
    rw [splitFirst_mark_iff.2 ⟨rfl, howner.ne rfl⟩]
    dsimp only
    rw [dropGit_eq_iff.2 hdrops, if_pos]
    rw [Bool.and_eq_true, isWord_iff, isWord_iff]
    exact ⟨howner, hdrops.isWord_iff.2 hraw⟩

/-! ## Section 3: The forms -/

theorem ownerRepo?_eq_none_iff : ownerRepo? t = none ↔ ¬ Rule.bare.Matches t := by
  constructor
  · intro h hmatches
    cases hmatches with
    | bare howner hrepo =>
      rw [ownerRepo?_eq_some_iff.2 ⟨_, rfl, howner, hrepo, dropGit_eq_iff.1 rfl⟩] at h
      cases h
  · intro h
    cases hread : ownerRepo? t with
    | none => rfl
    | some found =>
      obtain ⟨raw, rfl, howner, hraw, _⟩ := ownerRepo?_eq_some_iff.1 hread
      exact absurd (.bare howner hraw) h

theorem shorthand?_eq_some_iff (place : Place) :
    shorthand? t = some origin ↔ Rule.shorthand.Gives place t origin := by
  constructor
  · intro h
    unfold shorthand? at h
    split at h
    · split at h
      · obtain ⟨⟨owner, repo⟩, hread, rfl⟩ := Option.map_eq_some_iff.1 h
        obtain ⟨raw, rfl, howner, hraw, hdrops⟩ := ownerRepo?_eq_some_iff.1 hread
        exact .ownerRepo howner hraw hdrops
      · split at h
        · next howner =>
          cases h
          exact .owner (isWord_iff.1 howner)
        · cases h
    · cases h
  · intro h
    cases h with
    | owner howner =>
      have hslash : ¬ (List.contains _ '/') = true :=
        fun h => howner.ne rfl '/' (List.contains_iff_mem.1 h) rfl
      rw [shorthand?, if_neg hslash, if_pos (isWord_iff.2 howner)]
    | ownerRepo howner hraw hrepo =>
      rw [shorthand?, if_pos (by simp), ownerRepo?_eq_some_iff.2 ⟨_, rfl, howner, hraw, hrepo⟩]
      rfl

theorem shorthand?_eq_none_iff : shorthand? t = none ↔ ¬ Rule.shorthand.Matches t := by
  -- The place does not matter for this form.
  let place : Place := ⟨⟨[]⟩, none, fun _ => none⟩
  constructor
  · intro h hmatches
    have hgives : ∃ origin, Rule.shorthand.Gives place t origin := by
      cases hmatches with
      | owner howner => exact ⟨_, .owner howner⟩
      | ownerRepo howner hrepo => exact ⟨_, .ownerRepo howner hrepo (dropGit_eq_iff.1 rfl)⟩
    obtain ⟨origin, hgives⟩ := hgives
    rw [(shorthand?_eq_some_iff place).2 hgives] at h
    cases h
  · intro h
    cases hread : shorthand? t with
    | none => rfl
    | some origin =>
      refine absurd ?_ h
      cases (shorthand?_eq_some_iff place).1 hread with
      | owner howner => exact .owner howner
      | ownerRepo howner hraw _ => exact .ownerRepo howner hraw

theorem isRemote_iff : isRemote t = true ↔ Rule.remote.Matches t := by
  unfold isRemote
  constructor
  · intro h
    split at h
    · cases h
    · next hat =>
      split at h
      · cases h
      · next hcolon =>
        obtain ⟨rfl, _⟩ := splitFirst_mark_iff.1 hat
        obtain ⟨rfl, _⟩ := splitFirst_mark_iff.1 hcolon
        rw [Bool.and_eq_true, Bool.and_eq_true, isWord_iff, isWord_iff, isWord_iff] at h
        exact .remote h.1.1 h.1.2 h.2
  · intro h
    cases h with
    | remote huser hhost hpath =>
      rw [splitFirst_mark_iff.2 ⟨rfl, huser.ne rfl⟩]
      dsimp only
      rw [splitFirst_mark_iff.2 ⟨rfl, hhost.ne rfl⟩]
      simp only [isWord_iff.2 huser, isWord_iff.2 hhost, isWord_iff.2 hpath, Bool.and_self]

theorem hasScheme_iff : hasScheme t = true ↔ Rule.url.Matches t := by
  unfold hasScheme
  constructor
  · intro h
    split at h
    · next hcolon =>
      obtain ⟨rfl, _⟩ := splitFirst_mark_iff.1 hcolon
      rw [Bool.and_eq_true, List.all_eq_true] at h
      exact .url h.1 h.2
    · cases h
  · intro h
    cases h with
    | @url first scheme rest hfirst hscheme =>
      have hcolon : ∀ c ∈ first :: scheme, c ≠ ':' := by
        intro c hc
        rcases List.mem_cons.1 hc with rfl | hc
        · rintro rfl
          cases hfirst
        · rintro rfl
          exact absurd (hscheme _ hc) (by decide)
      rw [← List.cons_append, splitFirst_mark_iff.2 ⟨rfl, hcolon⟩]
      simp only [hfirst, Bool.true_and, List.all_eq_true]
      exact hscheme

/-! ## Section 4: Home directories -/

theorem exists_namesHome (t : Text) :
    NamesHome ('~' :: t) (t.span (· != '/')).1 (t.span (· != '/')).2 := by
  rw [List.span_eq_takeWhile_dropWhile]
  refine ⟨by rw [List.takeWhile_append_dropWhile], fun c hc => ?_, fun c hc => ?_⟩
  · simpa using List.all_eq_true.1 List.all_takeWhile c hc
  · simpa using stops_dropWhile (· != '/') t c hc

theorem NamesHome.span_eq {user tail : Text} (h : NamesHome ('~' :: t) user tail) :
    t.span (· != '/') = (user, tail) := by
  obtain ⟨heq, huser, htail⟩ := h
  obtain rfl := (List.cons.inj heq).2
  have hrun : ∀ c ∈ user, (c != '/') = true := fun c hc => by simpa using huser c hc
  have hstops : Stops (· != '/') tail := fun c hc => by simpa using htail c hc
  rw [List.span_eq_takeWhile_dropWhile]
  exact Prod.ext (takeWhile_run hrun hstops) (dropWhile_run hrun hstops)

/-- A leading `~user` is expanded to the home directory, if there is one. -/
theorem expandHome_of_namesHome {user tail : Text} (h : NamesHome t user tail) :
    expandHome place t = match place.homeFor? user with
      | some home => .ok ⟨home.bytes ++ Utf8.encode tail⟩
      | none => .error (if user = [] then .noHome else .unknownUser user) := by
  cases t with
  | nil => cases h.1
  | cons c t =>
    obtain rfl := (List.cons.inj h.1).1
    rw [expandHome, h.span_eq]
    dsimp only
    by_cases huser : user = []
    · subst huser
      rw [Place.homeFor?, if_pos rfl]
      cases place.home? <;> rfl
    · rw [Place.homeFor?, if_neg huser, if_neg (by simpa using huser)]
      cases place.homeOf? user with
      | none => rw [if_neg huser]
      | some home => rfl

theorem expandHome_of_plain (h : t.head? ≠ some '~') :
    expandHome place t = .ok (Path.ofText t) := by
  unfold expandHome
  split
  · exact absurd rfl h
  · rfl

theorem plain_or_namesHome (t : Text) :
    t.head? ≠ some '~' ∨ ∃ user tail, NamesHome t user tail := by
  cases t with
  | nil => exact .inl nofun
  | cons c t =>
    by_cases hc : c = '~'
    · subst hc
      exact .inr ⟨_, _, exists_namesHome t⟩
    · exact .inl (by simpa using hc)

theorem NamesHome.head?_eq {user tail : Text} (h : NamesHome t user tail) : t.head? = some '~' := by
  rw [h.1]
  rfl

theorem expandHome_eq_ok_iff {path : Path} :
    expandHome place t = .ok path ↔ ExpandsTo place t path := by
  constructor
  · intro h
    rcases plain_or_namesHome t with hplain | ⟨user, tail, hnames⟩
    · rw [expandHome_of_plain hplain] at h
      cases h
      exact .plain hplain
    · rw [expandHome_of_namesHome hnames] at h
      split at h
      · next hhome =>
        cases h
        exact .home hnames hhome
      · cases h
  · intro h
    cases h with
    | plain hplain => exact expandHome_of_plain hplain
    | home hnames hhome => rw [expandHome_of_namesHome hnames, hhome]

theorem expandHome_eq_error_iff {why : Refusal} :
    expandHome place t = .error why ↔ Rule.directory.Refuses place t why := by
  constructor
  · intro h
    rcases plain_or_namesHome t with hplain | ⟨user, tail, hnames⟩
    · rw [expandHome_of_plain hplain] at h
      cases h
    · rw [expandHome_of_namesHome hnames] at h
      split at h
      · cases h
      · next hhome =>
        cases h
        exact .unknownHome hnames hhome
  · intro h
    cases h with
    | unknownHome hnames hhome => rw [expandHome_of_namesHome hnames, hhome]

/-! ## Section 5: The rule that applies -/

theorem Rule.eq_of_rank_eq {rule rule' : Rule} (h : rule.rank = rule'.rank) : rule = rule' := by
  cases rule <;> cases rule' <;> first | rfl | cases h

/-- No two rules apply. -/
theorem Rule.Applies.unique {rule' : Rule} (h : rule.Applies t) (h' : rule'.Applies t) :
    rule = rule' := by
  rcases Nat.lt_trichotomy rule.rank rule'.rank with hlt | heq | hgt
  · exact absurd h.1 (h'.2 rule hlt)
  · exact Rule.eq_of_rank_eq heq
  · exact absurd h'.1 (h.2 rule' hgt)

theorem Rule.Matches.exists_applies (h : rule.Matches t) : ∃ first : Rule, first.Applies t := by
  -- By induction on the rank: either `rule` is the first, or an earlier one matches.
  induction hrank : rule.rank using Nat.strongRecOn generalizing rule with
  | ind n ih =>
    subst hrank
    by_cases hfirst : ∀ earlier : Rule, earlier.rank < rule.rank → ¬ earlier.Matches t
    · exact ⟨rule, h, hfirst⟩
    · simp only [not_forall, not_not] at hfirst
      obtain ⟨earlier, hlt, hearlier⟩ := hfirst
      exact ih earlier.rank hlt hearlier rfl

/-- Some rule applies, since every text may be a directory. -/
theorem exists_applies (t : Text) : ∃ rule : Rule, rule.Applies t :=
  (Rule.Matches.directory t).exists_applies

/-- What the rules before the one that applies find. -/
theorem Rule.Applies.earlier (h : rule.Applies t) :
    (0 < rule.rank → shorthand? t = none) ∧ (1 < rule.rank → isRemote t = false) ∧
    (2 < rule.rank → ownerRepo? t = none) ∧ (3 < rule.rank → hasScheme t = false) := by
  refine ⟨fun hrank => ?_, fun hrank => ?_, fun hrank => ?_, fun hrank => ?_⟩
  · exact shorthand?_eq_none_iff.2 (h.2 .shorthand hrank)
  · exact Bool.eq_false_iff.2 (mt isRemote_iff.1 (h.2 .remote hrank))
  · exact ownerRepo?_eq_none_iff.2 (h.2 .bare hrank)
  · exact Bool.eq_false_iff.2 (mt hasScheme_iff.1 (h.2 .url hrank))

theorem ofText_of_url (h : Rule.url.Applies t) : ofText place t =
    if t.any fun c => Text.isBlank c || Text.isControl c then .error (.malformedUrl t)
    else .ok ⟨.url t, false⟩ := by
  obtain ⟨hshorthand, hremote, hbare, _⟩ := h.earlier
  rw [ofText, hshorthand (by decide), hremote (by decide), hbare (by decide), hasScheme_iff.2 h.1]
  rfl

theorem ofText_of_directory (h : Rule.directory.Applies t) : ofText place t =
    match expandHome place t with
    | .ok path => .ok ⟨.directory path place.folder, false⟩
    | .error why => .error why := by
  obtain ⟨hshorthand, hremote, hbare, hurl⟩ := h.earlier
  rw [ofText, hshorthand (by decide), hremote (by decide), hbare (by decide), hurl (by decide)]
  rfl

/-- What the rule that applies gives is read. -/
theorem ofText_of_gives (h : rule.Applies t) (hgives : rule.Gives place t origin) :
    ofText place t = .ok ⟨origin, decide (rule = .bare)⟩ := by
  -- The reading comes to a rule only after the earlier ones have found nothing.
  obtain ⟨hshorthand, hremote, hbare, _⟩ := h.earlier
  cases rule with
  | shorthand =>
    rw [ofText, (shorthand?_eq_some_iff place).2 hgives]
    rfl
  | remote =>
    cases hgives with
    | remote hmatches =>
      rw [ofText, hshorthand (by decide), isRemote_iff.2 hmatches]
      rfl
  | bare =>
    cases hgives with
    | bare howner hraw hrepo =>
      rw [ofText, hshorthand (by decide), hremote (by decide),
        ownerRepo?_eq_some_iff.2 ⟨_, rfl, howner, hraw, hrepo⟩]
      rfl
  | url =>
    cases hgives with
    | url hmatches hclean =>
      have hany : ¬ (t.any fun c => Text.isBlank c || Text.isControl c) = true := by
        rw [List.any_eq_true]
        rintro ⟨c, hc, hbad⟩
        rw [(hclean c hc).1, (hclean c hc).2] at hbad
        cases hbad
      rw [ofText_of_url h, if_neg hany]
      rfl
  | directory =>
    cases hgives with
    | directory hpath =>
      rw [ofText_of_directory h, expandHome_eq_ok_iff.2 hpath]
      rfl

theorem ofText_of_refuses {why : Refusal} (h : rule.Applies t)
    (hrefuses : rule.Refuses place t why) : ofText place t = .error why := by
  cases hrefuses with
  | malformedUrl hmem hc =>
    rw [ofText_of_url h, if_pos]
    rw [List.any_eq_true]
    exact ⟨_, hmem, by rw [Bool.or_eq_true]; exact hc⟩
  | unknownHome hnames hhome =>
    rw [ofText_of_directory h, expandHome_eq_error_iff.2 (.unknownHome hnames hhome)]

/-- A rule that matches gives an origin or refuses. -/
theorem Rule.Matches.gives_or_refuses (place : Place) (h : rule.Matches t) :
    (∃ origin, rule.Gives place t origin) ∨ ∃ why, rule.Refuses place t why := by
  cases h with
  | owner howner => exact .inl ⟨_, .owner howner⟩
  | ownerRepo howner hrepo => exact .inl ⟨_, .ownerRepo howner hrepo (dropGit_eq_iff.1 rfl)⟩
  | remote huser hhost hpath => exact .inl ⟨_, .remote (.remote huser hhost hpath)⟩
  | bare howner hrepo => exact .inl ⟨_, .bare howner hrepo (dropGit_eq_iff.1 rfl)⟩
  | @url first scheme rest hfirst hscheme =>
    by_cases hclean : ∀ c ∈ first :: (scheme ++ ':' :: rest),
        Text.isBlank c = false ∧ Text.isControl c = false
    · exact .inl ⟨_, .url (.url hfirst hscheme) hclean⟩
    · simp only [not_forall, not_and_or, Bool.not_eq_false] at hclean
      obtain ⟨c, hmem, hc⟩ := hclean
      exact .inr ⟨_, .malformedUrl hmem hc⟩
  | directory =>
    cases hexpand : expandHome place t with
    | ok path => exact .inl ⟨_, .directory (expandHome_eq_ok_iff.1 hexpand)⟩
    | error why => exact .inr ⟨why, expandHome_eq_error_iff.1 hexpand⟩

/-- What is read is what the first rule that matches gives. -/
theorem ofText_eq_ok_iff {r : Reading} : ofText place t = .ok r ↔
    ∃ rule : Rule, rule.Applies t ∧ rule.Gives place t r.origin ∧
      r.bare = decide (rule = .bare) := by
  constructor
  · intro h
    obtain ⟨rule, happlies⟩ := exists_applies t
    rcases happlies.1.gives_or_refuses place with ⟨origin, hgives⟩ | ⟨why, hrefuses⟩
    · rw [ofText_of_gives happlies hgives] at h
      cases h
      exact ⟨rule, happlies, hgives, rfl⟩
    · rw [ofText_of_refuses happlies hrefuses] at h
      cases h
  · rintro ⟨rule, happlies, hgives, hbare⟩
    rw [ofText_of_gives happlies hgives, ← hbare]

/-- What is refused is what the first rule that matches refuses. -/
theorem ofText_eq_error_iff {why : Refusal} : ofText place t = .error why ↔
    ∃ rule : Rule, rule.Applies t ∧ rule.Refuses place t why := by
  constructor
  · intro h
    obtain ⟨rule, happlies⟩ := exists_applies t
    rcases happlies.1.gives_or_refuses place with ⟨origin, hgives⟩ | ⟨why', hrefuses⟩
    · rw [ofText_of_gives happlies hgives] at h
      cases h
    · rw [ofText_of_refuses happlies hrefuses] at h
      cases h
      exact ⟨rule, happlies, hrefuses⟩
  · rintro ⟨rule, happlies, hrefuses⟩
    exact ofText_of_refuses happlies hrefuses

end Origin
end ScriptDeps
