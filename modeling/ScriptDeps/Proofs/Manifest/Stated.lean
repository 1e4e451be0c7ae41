import Mathlib.Data.List.Forall2
import ScriptDeps.Proofs.Manifest.Reading
import ScriptDeps.Proofs.Path
import ScriptDeps.Proofs.Text.Words

/-! # What a manifest states

    Of each dependency a manifest states where its package is found, which
    versions of it will do, the module that is used, and what the package is
    called.  These values are told here for each form of origin and each kind
    of constraint (`States`), and not by the functions that compute them.  The
    main result `ofDependencies_reads_back` says that a manifest is read back
    as exactly what it is to state. -/

namespace ScriptDeps
namespace Manifest

/-! ## Section 1: Model -/

/-- How bytes are written as a text: those of a text as that text, and others
    with replacements. -/
inductive IsWritten : Bytes → Text → Prop
  | text (t : Text) : IsWritten (Utf8.encode t) t
  | other {b : Bytes} (h : Utf8.decode b = none) : IsWritten b (Utf8.decodeLossy b)

/-- The last parameter is a name without its extension: without the last dot
    and what follows it, unless that dot comes first. -/
inductive HasStem {α : Type} (dot : α) : List α → List α → Prop
  | whole {name : List α} (h : dot ∉ name.tail) : HasStem dot name name
  | cut {stem ext : List α} (hstem : stem ≠ []) (hext : dot ∉ ext) :
      HasStem dot (stem ++ dot :: ext) stem

/-- `last` is what follows the last slash of `t`, slashes at its end apart. -/
def EndsIn (t last : Text) : Prop :=
  ∃ front slashes, t = front ++ last ++ slashes ∧ (∀ c ∈ slashes, c = '/') ∧ '/' ∉ last ∧
    (front = [] ∨ last ≠ [] ∧ front.getLast? = some '/')

/-- The name of the package at a URL: the stem of what the URL ends in. -/
inductive HasName (url : Text) : Text → Prop
  /-- What leads upwards is no name, and has no stem. -/
  | up (h : EndsIn url "..".toList) : HasName url "..".toList
  | stem {last stem : Text} (h : EndsIn url last) (hlast : last ≠ "..".toList)
      (hstem : HasStem '.' last stem) : HasName url stem

/-- The requirement that a constraint is stated as. -/
inductive IsRequired : Constraint → Requirement → Prop
  | upToNextMajor (v : Version) : IsRequired (.upToNextMajor v) (.atLeast v.text)
  | exactly (v : Version) : IsRequired (.exactly v) (.revision v.text)
  | reference (ref : Text) : IsRequired (.reference ref) (.revision ref)
  | latest : IsRequired .latest .unbounded

/-- The address of a repository on the well-known host, over SSH or not. -/
inductive IsAddress (owner repo : Text) : Bool → Text → Prop
  | https : IsAddress owner repo false
      ("https://github.com/".toList ++ owner ++ "/".toList ++ repo ++ ".git".toList)
  | ssh : IsAddress owner repo true
      ("git@github.com:".toList ++ owner ++ "/".toList ++ repo ++ ".git".toList)

/-- Where a directory is: its components, written behind the base with a slash
    between the two.  A directory that starts at the root stands alone. -/
inductive IsJoined (base path : Path) : Path → Prop
  | root {cs : List Path.Component} (h : path.components = .root :: cs) :
      IsJoined base path ⟨Path.slash :: Path.spelled cs⟩
  | behind (h : .root ∉ path.components)
      (hbase : base.bytes = [] ∨ base.bytes.getLast? = some Path.slash) :
      IsJoined base path ⟨base.bytes ++ Path.spelled path.components⟩
  | below (h : .root ∉ path.components)
      (hbase : ¬ (base.bytes = [] ∨ base.bytes.getLast? = some Path.slash)) :
      IsJoined base path ⟨base.bytes ++ Path.slash :: Path.spelled path.components⟩

/-- Where the package of a dependency is found. -/
inductive IsFoundAt (ssh : Bool) : Dependency → Location → Prop
  | directory {module t : Text} {path base p : Path} {c : Constraint}
      (hp : IsJoined base path p) (h : IsWritten p.bytes t) :
      IsFoundAt ssh ⟨module, .directory path base, c⟩ (.path t)
  | url {module t : Text} {c : Constraint} {q : Requirement} (h : IsRequired c q) :
      IsFoundAt ssh ⟨module, .url t, c⟩ (.url t q)
  | remote {module t : Text} {c : Constraint} {q : Requirement} (h : IsRequired c q) :
      IsFoundAt ssh ⟨module, .remote t, c⟩ (.url t q)
  | repository {module owner repo u : Text} {c : Constraint} {q : Requirement}
      (hu : IsAddress owner repo ssh u) (h : IsRequired c q) :
      IsFoundAt ssh ⟨module, .shorthand owner (some repo), c⟩ (.url u q)
  /-- Without a repository the module stands for it. -/
  | owner {module owner u : Text} {c : Constraint} {q : Requirement}
      (hu : IsAddress owner module ssh u) (h : IsRequired c q) :
      IsFoundAt ssh ⟨module, .shorthand owner none, c⟩ (.url u q)

/-- What the package of a dependency is called. -/
inductive IsCalled : Dependency → Text → Prop
  | directory {module t : Text} {path base : Path} {c : Constraint} {n stem : Name}
      (hlast : path.components.getLast? = some (.name n)) (hstem : HasStem Path.dot n stem)
      (h : IsWritten stem t) : IsCalled ⟨module, .directory path base, c⟩ t
  | nameless {module : Text} {path base : Path} {c : Constraint}
      (hlast : ∀ n, path.components.getLast? ≠ some (.name n)) :
      IsCalled ⟨module, .directory path base, c⟩ module
  | url {module u t : Text} {c : Constraint} (h : HasName u t) : IsCalled ⟨module, .url u, c⟩ t
  /-- The path of a remote starts behind the first colon. -/
  | remote {module user path t : Text} {c : Constraint} (huser : ':' ∉ user)
      (h : HasName path t) : IsCalled ⟨module, .remote (user ++ ':' :: path), c⟩ t
  | plain {module u t : Text} {c : Constraint} (hu : ':' ∉ u) (h : HasName u t) :
      IsCalled ⟨module, .remote u, c⟩ t
  | repository {module owner repo : Text} {c : Constraint} :
      IsCalled ⟨module, .shorthand owner (some repo), c⟩ repo
  | owner {module owner : Text} {c : Constraint} :
      IsCalled ⟨module, .shorthand owner none, c⟩ module

/-- The entry is what a manifest is to state of a dependency. -/
structure States (ssh : Bool) (d : Dependency) (e : Entry) : Prop where
  location : IsFoundAt ssh d e.location
  product  : e.product = d.module
  package  : IsCalled d e.package

/-! ## Section 2: Texts and stems -/

theorem isWritten_iff {b : Bytes} {t : Text} : IsWritten b t ↔ Utf8.decodeLossy b = t := by
  constructor
  · intro h
    cases h with
    | text => exact Utf8.decodeLossy_encode t
    | other => rfl
  · intro h
    subst h
    cases hdecode : Utf8.decode b with
    | none => exact .other hdecode
    | some t =>
      rw [Utf8.decode_eq_some_iff.1 hdecode, Utf8.decodeLossy_encode]
      exact .text t

/-- What a list holds stands in it for the last time somewhere. -/
theorem exists_last {α : Type} {x : α} {xs : List α} (h : x ∈ xs) :
    ∃ front back, xs = front ++ x :: back ∧ x ∉ back := by
  obtain ⟨back, front, heq, hback⟩ := List.eq_append_cons_of_mem (List.mem_reverse.2 h)
  refine ⟨front.reverse, back.reverse, ?_, by simpa using hback⟩
  rw [← List.reverse_reverse xs, heq]
  simp

theorem exists_hasStem {α : Type} (dot : α) (name : List α) : ∃ stem, HasStem dot name stem := by
  by_cases hdot : dot ∈ name.tail
  · obtain ⟨stem, ext, heq, hext⟩ := exists_last (List.mem_of_mem_tail hdot)
    refine ⟨stem, ?_⟩
    rw [heq]
    apply HasStem.cut _ hext
    intro hstem
    rw [heq, hstem] at hdot
    exact hext hdot
  · exact ⟨name, .whole hdot⟩

/-- A name is cut where its stem ends. -/
theorem HasStem.cutName {n stem : Name} (h : HasStem Path.dot n stem) :
    (Path.cutName n).1 = stem := by
  unfold Path.cutName
  cases h with
  | whole hdot =>
    split
    · rfl
    · rfl
    · next stem ext hstem hsplit =>
      obtain ⟨heq, _⟩ := Cut.splitAtLast?_eq_some_iff.1 hsplit
      obtain ⟨b, bs, rfl⟩ := List.exists_cons_of_ne_nil hstem
      rw [heq] at hdot
      exact absurd (by simp) hdot
  | @cut stem ext hstem hext =>
    have hlast : Cut.IsLast [Path.dot] (stem ++ [Path.dot] ++ ext) stem ext :=
      (Cut.isLast_iff List.not_mem_nil).2 fun hdot => hext (by simpa using hdot.subset)
    rw [List.append_assoc] at hlast
    have hsplit : Cut.splitAtLast? [Path.dot] (stem ++ Path.dot :: ext) = some (stem, ext) :=
      Cut.splitAtLast?_eq_some_iff.2 hlast
    rw [hsplit]
    cases stem with
    | nil => exact absurd rfl hstem
    | cons b bs => rfl

/-- A dot is one byte, and no byte of another character. -/
theorem dot_mem_encode {t : Text} (h : Path.dot ∈ Utf8.encode t) : '.' ∈ t := by
  obtain ⟨c, hc, hcode⟩ := Utf8.exists_mem_of_mem_encode (by decide) h
  obtain rfl : c = '.' := Char.toNat_inj.1 hcode
  exact hc

theorem HasStem.encode {name stem : Text} (h : HasStem '.' name stem) :
    HasStem Path.dot (Utf8.encode name) (Utf8.encode stem) := by
  cases h with
  | whole hdot =>
    apply HasStem.whole
    cases name with
    | nil => exact List.not_mem_nil
    | cons c rest =>
      intro hmem
      rw [Utf8.encode_cons] at hmem
      by_cases hc : c = '.'
      · subst hc
        exact hdot (dot_mem_encode hmem)
      · -- Neither the bytes of the first character nor those behind them are a dot.
        rcases List.mem_append.1 (List.mem_of_mem_tail hmem) with hfirst | hrest
        · have hcode := Utf8.eq_toNat_of_mem_encodeCode (Utf8.isScalar_toNat c) (by decide) hfirst
          exact hc (Char.toNat_inj.1 hcode)
        · exact hdot (dot_mem_encode hrest)
  | @cut stem ext hstem hext =>
    have hname : Utf8.encode (stem ++ '.' :: ext) =
        Utf8.encode stem ++ Path.dot :: Utf8.encode ext := by
      rw [Utf8.encode_append, Utf8.encode_cons]
      rfl
    rw [hname]
    apply HasStem.cut
    · intro hnil
      exact hstem (Utf8.encode_injective hnil)
    · intro hdot
      exact hext (dot_mem_encode hdot)

/-! ## Section 3: Names at the end of a URL -/

theorem exists_endsIn (t : Text) : ∃ last, EndsIn t last := by
  obtain ⟨slashes, ht, hslashes⟩ := Cut.trimEnd_append_dropped (· = '/') t
  have hslashes : ∀ c ∈ slashes, c = '/' := by simpa using hslashes
  have hend := Cut.getLast?_trimEnd (· = '/') t
  generalize Cut.trimEnd (· = '/') t = trimmed at ht hend
  by_cases hslash : '/' ∈ trimmed
  · obtain ⟨front, last, rfl, hlast⟩ := exists_last hslash
    refine ⟨last, front ++ ['/'], slashes, ?_, hslashes, hlast, .inr ⟨?_, by simp⟩⟩
    · rw [ht]
      simp
    · -- No slash is left at the end, so something follows the last one.
      intro hnil
      rw [hnil] at hend
      exact absurd (hend '/' (by simp)) (by simp)
  · exact ⟨trimmed, [], slashes, ht, hslashes, hslash, .inl rfl⟩

theorem EndsIn.getLastD {t last : Text} (h : EndsIn t last) :
    (Cut.pieces (· = '/') (Cut.trimEnd (· = '/') t)).getLastD t = last := by
  obtain ⟨front, slashes, rfl, hslashes, hlast, hfront⟩ := h
  have hfree : ∀ c ∈ last, decide (c = '/') = false := by
    intro c hc
    apply decide_eq_false
    rintro rfl
    exact hlast hc
  have hend : ∀ c ∈ (front ++ last).getLast?, decide (c = '/') = false := by
    intro c hc
    rcases hfront with rfl | ⟨hne, _⟩
    · exact hfree c (List.mem_of_mem_getLast? hc)
    · rw [List.getLast?_append_of_ne_nil _ hne] at hc
      exact hfree c (List.mem_of_mem_getLast? hc)
  rw [Cut.trimEnd_run (by simpa using hslashes) hend]
  rcases hfront with rfl | ⟨_, hslash⟩
  · rw [List.nil_append, Cut.pieces_of_forall hfree]
    rfl
  · obtain ⟨before, rfl⟩ := List.getLast?_eq_some_iff.1 hslash
    rw [List.append_assoc, List.singleton_append, Cut.pieces_append_mark (by simp),
      Cut.pieces_of_forall hfree]
    simp

/-- A text without a slash is a name of its own, unless it leads nowhere or upwards. -/
theorem isPlainName_encode {last : Text} (hslash : '/' ∉ last) (hup : last ≠ "..".toList)
    (hnil : last ≠ []) (hhere : last ≠ ['.']) : Path.IsPlainName (Utf8.encode last) := by
  refine ⟨?_, ?_, ?_, ?_⟩
  · intro h
    exact hnil (Utf8.encode_injective h)
  · intro h
    obtain ⟨c, hc, hcode⟩ := Utf8.exists_mem_of_mem_encode (by decide) h
    obtain rfl : c = '/' := Char.toNat_inj.1 hcode
    exact hslash hc
  · intro h
    exact hhere (Utf8.encode_injective (h.trans (by decide : Path.hereName = Utf8.encode ['.'])))
  · intro h
    exact hup (Utf8.encode_injective (h.trans (by decide : Path.upName = Utf8.encode "..".toList)))

/-- A name of one dot or none is its own stem. -/
theorem HasStem.eq_of_length {α : Type} {dot : α} {name stem : List α}
    (h : HasStem dot name stem) (hlength : name.length ≤ 1) : stem = name := by
  cases h with
  | whole => rfl
  | @cut stem ext hstem =>
    have hpos := List.length_pos_of_ne_nil hstem
    rw [List.length_append, List.length_cons] at hlength
    omega

theorem HasStem.stem?_ofText {last stem : Text} (h : HasStem '.' last stem)
    (hplain : Path.IsPlainName (Utf8.encode last)) :
    (Path.ofText last).stem? = some (Utf8.encode stem) := by
  unfold Path.stem? Path.fileName? Path.ofText
  rw [Path.components_plainName hplain, ← h.encode.cutName]
  rfl

theorem HasName.lastStem_eq {url t : Text} (h : HasName url t) : lastStem url = t := by
  unfold lastStem
  cases h with
  | up hends =>
    simp only [hends.getLastD]
    decide
  | @stem last stem hends hlast hstem =>
    simp only [hends.getLastD]
    by_cases hshort : last = [] ∨ last = ['.']
    · -- What leads nowhere has no stem as a path, and is taken as it stands.
      have hnone : (Path.ofText last).stem? = none := by
        rcases hshort with rfl | rfl <;> decide
      rw [hnone, hstem.eq_of_length (by rcases hshort with rfl | rfl <;> decide)]
    · rw [not_or] at hshort
      obtain ⟨_, _, _, _, hslash, _⟩ := hends
      rw [hstem.stem?_ofText (isPlainName_encode hslash hlast hshort.1 hshort.2)]
      exact Utf8.decodeLossy_encode _

theorem hasName_iff {url t : Text} : HasName url t ↔ lastStem url = t := by
  constructor
  · exact HasName.lastStem_eq
  · intro h
    subst h
    obtain ⟨last, hends⟩ := exists_endsIn url
    by_cases hup : last = "..".toList
    · subst hup
      have hname := HasName.up hends
      rw [hname.lastStem_eq]
      exact hname
    · obtain ⟨stem, hstem⟩ := exists_hasStem '.' last
      have hname := HasName.stem hends hup hstem
      rw [hname.lastStem_eq]
      exact hname

/-! ## Section 4: The values of an entry -/

theorem isJoined_iff {base path p : Path} :
    IsJoined base path p ↔ Origin.location path base = p := by
  unfold Origin.location
  rcases Path.components_cases path with ⟨_, cs, hcs, _⟩ | ⟨_, hwords⟩
  · have hjoin : base.join path.tidy = ⟨Path.slash :: Path.spelled cs⟩ := by
      rw [Path.tidy_of_root hcs]
      exact Path.join_of_isAbsolute base (by simp [Path.isAbsolute])
    rw [hjoin]
    constructor
    · intro h
      cases h with
      | root h => rw [(List.cons.inj (hcs.symm.trans h)).2]
      | behind h => exact absurd (hcs ▸ List.mem_cons_self ..) h
      | below h => exact absurd (hcs ▸ List.mem_cons_self ..) h
    · intro h
      rw [← h]
      exact .root hcs
  · have hroot : Path.Component.root ∉ path.components := fun h =>
      (hwords .root h).2 (by decide)
    have hjoin : base.join path.tidy =
        ⟨base.bytes ++ (base.seam ++ Path.spelled path.components)⟩ := by
      rw [Path.tidy_of_words hwords]
      exact congrArg Path.mk (Path.bytes_join base (Path.isAbsolute_spelled hwords))
    rw [hjoin]
    unfold Path.seam
    constructor
    · intro h
      cases h with
      | root h => exact absurd (h ▸ List.mem_cons_self ..) hroot
      | behind _ hbase => rw [if_pos hbase, List.nil_append]
      | below _ hbase => rw [if_neg hbase, List.singleton_append]
    · intro h
      rw [← h]
      split
      · next hbase => exact .behind hroot hbase
      · next hbase => exact .below hroot hbase

theorem isRequired_iff {c : Constraint} {q : Requirement} :
    IsRequired c q ↔ requirementOf c = q := by
  constructor
  · intro h
    cases h <;> rfl
  · intro h
    subst h
    cases c <;> constructor

theorem isAddress_iff {ssh : Bool} {owner repo u : Text} :
    IsAddress owner repo ssh u ↔ hostUrl ssh owner repo = u := by
  constructor
  · intro h
    cases h <;> rfl
  · intro h
    subst h
    cases ssh <;> constructor

theorem isFoundAt_iff {ssh : Bool} {d : Dependency} {l : Location} :
    IsFoundAt ssh d l ↔ locationOf ssh d = l := by
  constructor
  · intro h
    cases h with
    | directory hp h =>
      rw [← isWritten_iff.1 h, ← isJoined_iff.1 hp]
      rfl
    | url h =>
      rw [← isRequired_iff.1 h]
      rfl
    | remote h =>
      rw [← isRequired_iff.1 h]
      rfl
    | repository hu h =>
      rw [← isAddress_iff.1 hu, ← isRequired_iff.1 h]
      rfl
    | owner hu h =>
      rw [← isAddress_iff.1 hu, ← isRequired_iff.1 h]
      rfl
  · intro h
    subst h
    obtain ⟨module, origin, c⟩ := d
    cases origin with
    | directory path base => exact .directory (isJoined_iff.2 rfl) (isWritten_iff.2 rfl)
    | url t => exact .url (isRequired_iff.2 rfl)
    | remote t => exact .remote (isRequired_iff.2 rfl)
    | shorthand owner repo =>
      cases repo with
      | none => exact .owner (isAddress_iff.2 rfl) (isRequired_iff.2 rfl)
      | some repo => exact .repository (isAddress_iff.2 rfl) (isRequired_iff.2 rfl)

theorem stem?_of_last {path : Path} {n stem : Name}
    (h : path.components.getLast? = some (.name n)) (hstem : HasStem Path.dot n stem) :
    path.stem? = some stem := by
  unfold Path.stem? Path.fileName?
  rw [h, ← hstem.cutName]
  rfl

theorem stem?_of_nameless {path : Path}
    (h : ∀ n, path.components.getLast? ≠ some (.name n)) : path.stem? = none := by
  unfold Path.stem? Path.fileName?
  split
  · next n hn => exact absurd hn (h n)
  · rfl

theorem packageOf_directory (module : Text) (path base : Path) (c : Constraint) :
    packageOf ⟨module, .directory path base, c⟩ =
      (path.stem?.map Utf8.decodeLossy).getD module := by
  unfold packageOf
  cases h : path.stem? with
  | none => simp only [h]; rfl
  | some stem => simp only [h]; rfl

/-- The path of a remote starts behind its first colon, if it has one. -/
theorem packageOf_remote (module t : Text) (c : Constraint) :
    packageOf ⟨module, .remote t, c⟩ =
      lastStem (((Cut.splitFirst (· = ':') t).map Prod.snd).getD t) := by
  unfold packageOf
  cases h : Cut.splitFirst (· = ':') t with
  | none => simp only [h]; rfl
  | some halves => simp only [h]; rfl

theorem IsCalled.packageOf_eq {d : Dependency} {t : Text} (h : IsCalled d t) :
    packageOf d = t := by
  cases h with
  | directory hlast hstem h =>
    rw [packageOf_directory, stem?_of_last hlast hstem]
    exact isWritten_iff.1 h
  | nameless hlast =>
    rw [packageOf_directory, stem?_of_nameless hlast]
    rfl
  | url h => exact hasName_iff.1 h
  | @remote module user path t c huser h =>
    have hsplit : Cut.splitFirst (· = ':') (user ++ ':' :: path) = some (user, path) :=
      Cut.splitFirst_mark_iff.2 ⟨rfl, fun y hy he => huser (he ▸ hy)⟩
    rw [packageOf_remote, hsplit]
    exact hasName_iff.1 h
  | plain hu h =>
    have hsplit := (Cut.splitFirst_eq_none (· = ':') _).2 fun y hy =>
      decide_eq_false fun he => hu (he ▸ hy)
    rw [packageOf_remote, hsplit]
    exact hasName_iff.1 h
  | repository => rfl
  | owner => rfl

theorem exists_isCalled (d : Dependency) : ∃ t, IsCalled d t := by
  obtain ⟨module, origin, c⟩ := d
  cases origin with
  | directory path base =>
    by_cases hname : ∃ n, path.components.getLast? = some (.name n)
    · obtain ⟨n, hn⟩ := hname
      obtain ⟨stem, hstem⟩ := exists_hasStem Path.dot n
      exact ⟨_, .directory hn hstem (isWritten_iff.2 rfl)⟩
    · exact ⟨module, .nameless fun n hn => hname ⟨n, hn⟩⟩
  | url t => exact ⟨_, .url (hasName_iff.2 rfl)⟩
  | remote t =>
    cases hsplit : Cut.splitFirst (· = ':') t with
    | none =>
      have hcolon := (Cut.splitFirst_eq_none _ _).1 hsplit
      exact ⟨_, .plain (fun hmem => by simpa using hcolon _ hmem) (hasName_iff.2 rfl)⟩
    | some halves =>
      obtain ⟨rfl, huser⟩ := Cut.splitFirst_mark_iff.1 hsplit
      exact ⟨_, .remote (fun hmem => huser _ hmem rfl) (hasName_iff.2 rfl)⟩
  | shorthand owner repo =>
    cases repo with
    | none => exact ⟨module, .owner⟩
    | some repo => exact ⟨repo, .repository⟩

theorem isCalled_iff {d : Dependency} {t : Text} : IsCalled d t ↔ packageOf d = t := by
  constructor
  · exact IsCalled.packageOf_eq
  · intro h
    obtain ⟨t', hcalled⟩ := exists_isCalled d
    rw [← h, hcalled.packageOf_eq]
    exact hcalled

theorem states_iff {ssh : Bool} {d : Dependency} {e : Entry} :
    States ssh d e ↔ entryOf ssh d = e := by
  constructor
  · intro h
    obtain ⟨location, product, package⟩ := e
    unfold entryOf
    rw [isFoundAt_iff.1 h.location, isCalled_iff.1 h.package, ← h.product]
  · intro h
    subst h
    exact ⟨isFoundAt_iff.2 rfl, rfl, isCalled_iff.2 rfl⟩

theorem forall₂_states_iff {ssh : Bool} {ds : List Dependency} {es : List Entry} :
    List.Forall₂ (States ssh) ds es ↔ ds.map (entryOf ssh) = es := by
  rw [← List.forall₂_eq_eq_eq, List.forall₂_map_left_iff]
  constructor
  · exact List.Forall₂.imp fun _ _ => states_iff.1
  · exact List.Forall₂.imp fun _ _ => states_iff.2

/-! ## Section 5: Whole manifests -/

/-- Whatever the dependencies hold, their manifest is read back: exactly one
    package and one product for each of them, in order, with the values that it
    is to state.  Nothing in a dependency adds a line, and two lists of
    dependencies have the same manifest if and only if what it is to state of
    them agrees. -/
theorem ofDependencies_reads_back (o : Options) :
    (∀ ds, ∃ es, (ofDependencies o ds).entries? o.platform = some es) ∧
    (∀ ds es, (ofDependencies o ds).entries? o.platform = some es ↔
      List.Forall₂ (States o.ssh) ds es) ∧
    (∀ ds, (manifestText o ds).count '\n' =
      (manifestText o []).count '\n' + 2 * (ds.length - 1)) ∧
    (∀ ds ds', manifestText o ds = manifestText o ds' ↔
      ∃ es, List.Forall₂ (States o.ssh) ds es ∧ List.Forall₂ (States o.ssh) ds' es) := by
  refine ⟨?_, ?_, ?_, ?_⟩
  · intro ds
    exact ⟨_, entries?_ofDependencies o ds⟩
  · intro ds es
    rw [entries?_ofDependencies, Option.some_inj]
    exact forall₂_states_iff.symm
  · intro ds
    have h := count_newline_render o.platform (ds.map (entryOf o.ssh))
    rwa [List.length_map] at h
  · intro ds ds'
    rw [manifestText_eq_iff]
    constructor
    · intro h
      exact ⟨_, forall₂_states_iff.2 rfl, forall₂_states_iff.2 h.symm⟩
    · intro h
      obtain ⟨es, hds, hds'⟩ := h
      rw [forall₂_states_iff.1 hds, forall₂_states_iff.1 hds']

/-- A directory whose name holds a quote and a line feed, and one package for
    each other form of origin. -/
theorem ofDependencies_reads_back_mixed :
    (ofDependencies ⟨true, .unspecified⟩
      [⟨"A".toList, .directory (Path.ofText "../a\"\nb".toList) (Path.ofText "/é".toList), .latest⟩,
        ⟨"Bar".toList, .url "https://x.org/y/Bar.git/".toList, .upToNextMajor ⟨1, 0, 0, [], []⟩⟩,
        ⟨"Tools".toList, .shorthand "alice".toList none, .exactly ⟨2, 1, 0, [], []⟩⟩,
        ⟨"Z".toList, .remote "git@h.org:u/z.w.git".toList, .reference "main".toList⟩]).entries?
        .unspecified =
      some [⟨.path "/é/../a\"\nb".toList, "A".toList, "a\"\nb".toList⟩,
        ⟨.url "https://x.org/y/Bar.git/".toList (.atLeast "1.0.0".toList), "Bar".toList,
          "Bar".toList⟩,
        ⟨.url "git@github.com:alice/Tools.git".toList (.revision "2.1.0".toList), "Tools".toList,
          "Tools".toList⟩,
        ⟨.url "git@h.org:u/z.w.git".toList (.revision "main".toList), "Z".toList,
          "z.w".toList⟩] := by
  have hdirectory : IsWritten (Utf8.encode "/é".toList ++ Path.slash ::
      Path.spelled (Path.ofText "../a\"\nb".toList).components) "/é/../a\"\nb".toList :=
    .text "/é/../a\"\nb".toList
  have hbar : HasName "https://x.org/y/Bar.git/".toList "Bar".toList := by
    have hends : EndsIn "https://x.org/y/Bar.git/".toList "Bar.git".toList :=
      ⟨"https://x.org/y/".toList, ['/'], rfl, by simp, by decide, by decide⟩
    exact .stem hends (by decide)
      (@HasStem.cut Char '.' "Bar".toList "git".toList (by decide) (by decide))
  have hzw : HasName "u/z.w.git".toList "z.w".toList := by
    have hends : EndsIn "u/z.w.git".toList "z.w.git".toList :=
      ⟨"u/".toList, [], rfl, by simp, by decide, by decide⟩
    exact .stem hends (by decide)
      (@HasStem.cut Char '.' "z.w".toList "git".toList (by decide) (by decide))
  apply ((ofDependencies_reads_back ⟨true, .unspecified⟩).2.1 _ _).2
  refine .cons ⟨?_, rfl, ?_⟩ (.cons ⟨?_, rfl, ?_⟩ (.cons ⟨?_, rfl, ?_⟩ (.cons ⟨?_, rfl, ?_⟩ .nil)))
  · exact .directory (.below (by decide) (by decide)) hdirectory
  · exact .directory (n := Utf8.encode "a\"\nb".toList) (by decide) (.whole (by decide))
      (.text "a\"\nb".toList)
  · exact .url (.upToNextMajor _)
  · exact .url hbar
  · exact .owner .ssh (.exactly _)
  · exact .owner
  · exact .remote (.reference _)
  · exact @IsCalled.remote _ "git@h.org".toList _ _ _ (by decide) hzw

end Manifest
end ScriptDeps
