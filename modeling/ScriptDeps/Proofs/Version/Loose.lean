import ScriptDeps.Proofs.Text.Cut
import ScriptDeps.Proofs.Version.Text

/-! # The two readings of a version

    The loose reading accepts, with blanks around it and a `v` in front, one to
    three numbers and then the suffixes of a semantic version (`IsLoose`); it
    accepts nothing else, and the version it gives has these numbers, zeros for
    the missing ones, and these suffixes.  The strict reading accepts what the
    texts of semantic versions are, so it agrees with the loose one on them. -/

namespace ScriptDeps
namespace Version

variable {t suffix core front back pre build : Text} {v : Version} {n x y z : Nat}

/-! ## Section 1: The grammar -/

/-- A decimal number below 2^64 without leading zeros. -/
structure IsNumeral (t : Text) (n : Nat) : Prop where
  ne     : t ≠ []
  digits : ∀ c ∈ t, Text.isDigit c = true
  zeros  : t.head? = some '0' → t = ['0']
  value  : Decimal.value t = n
  fits   : n < Decimal.wordLimit

/-- One or more letters, digits and dashes. -/
structure IsIdentifier (t : Text) : Prop where
  ne    : t ≠ []
  chars : ∀ c ∈ t, isIdentifierChar c = true

/-- An identifier that has no leading zeros if it is a number. -/
structure IsPlainIdentifier (t : Text) : Prop extends IsIdentifier t where
  zeros : (∀ c ∈ t, Text.isDigit c = true) → t.head? = some '0' → t = ['0']

/-- One or more parts of one form, with dots between them. -/
def IsDotted (form : Text → Prop) (t : Text) : Prop :=
  ∃ parts, parts ≠ [] ∧ (∀ part ∈ parts, form part) ∧ t = Cut.join ['.'] parts

/-- One to three numbers with dots between them.  The missing ones are zero. -/
inductive IsCore : Text → Nat → Nat → Nat → Prop
  | major {a : Text} {x : Nat} (ha : IsNumeral a x) : IsCore a x 0 0
  | minor {a b : Text} {x y : Nat} (ha : IsNumeral a x) (hb : IsNumeral b y) :
      IsCore (Cut.join ['.'] [a, b]) x y 0
  | patch {a b c : Text} {x y z : Nat} (ha : IsNumeral a x) (hb : IsNumeral b y)
      (hc : IsNumeral c z) : IsCore (Cut.join ['.'] [a, b, c]) x y z

/-- A part of the given form behind its mark, or nothing. -/
inductive IsSuffix (mark : Char) (form : Text → Prop) : Text → Text → Prop
  | absent : IsSuffix mark form [] []
  | present {part : Text} (h : form part) : IsSuffix mark form (mark :: part) part

/-- A version as people write it, without what may stand around it. -/
inductive IsLoose : Text → Version → Prop
  | mk {core front back pre build : Text} {x y z : Nat} (hcore : IsCore core x y z)
      (hpre : IsSuffix '-' (IsDotted IsPlainIdentifier) front pre)
      (hbuild : IsSuffix '+' (IsDotted IsIdentifier) back build) :
      IsLoose (core ++ (front ++ back)) ⟨x, y, z, pre, build⟩

/-! ## Section 2: Numbers -/

theorem number?_eq_some_iff : number? t = some n ↔ IsNumeral t n := by
  constructor
  · intro h
    have hfits := lt_of_number? h
    unfold number? Decimal.toNat? at h
    split at h
    · next m hm =>
      split at h
      · next hform =>
        cases h
        split at hm
        · next hdigits =>
          cases hm
          simp only [Bool.and_eq_true, Bool.not_eq_true', List.isEmpty_eq_false_iff,
            List.all_eq_true] at hdigits
          refine ⟨hdigits.1, hdigits.2, ?_, rfl, hfits⟩
          intro hzero
          simp only [Bool.and_eq_true, Bool.or_eq_true, decide_eq_true_eq, bne_iff_ne, ne_eq,
            hzero, not_true_eq_false, or_false] at hform
          obtain ⟨c, rfl⟩ := List.length_eq_one_iff.1 hform.1
          exact congrArg (fun c => [c]) (Option.some.inj hzero)
        · cases hm
      · cases h
    · cases h
  · intro h
    -- It is how its value is written, and that is read back.
    rw [← Decimal.ofNat_value h.ne h.digits h.zeros, h.value]
    exact number?_ofNat h.fits

theorem IsNumeral.eq_ofNat (h : IsNumeral t n) : t = Decimal.ofNat n := by
  rw [← h.value, Decimal.ofNat_value h.ne h.digits h.zeros]

theorem IsNumeral.dot_notMem (h : IsNumeral t n) : '.' ∉ t := by
  intro hdot
  exact absurd (h.digits _ hdot) (by decide)

/-! ## Section 3: Suffixes -/

theorem isBuildIdentifier_iff : isBuildIdentifier t = true ↔ IsIdentifier t := by
  simp only [isBuildIdentifier, Bool.and_eq_true, Bool.not_eq_true', List.isEmpty_eq_false_iff,
    List.all_eq_true]
  exact ⟨fun h => ⟨h.1, h.2⟩, fun h => ⟨h.ne, h.chars⟩⟩

theorem isPreIdentifier_iff : isPreIdentifier t = true ↔ IsPlainIdentifier t := by
  unfold isPreIdentifier
  rw [Bool.and_eq_true, isBuildIdentifier_iff]
  -- A number may be a zero, but may not start with one.
  constructor
  · intro ⟨hident, hzeros⟩
    refine ⟨hident, ?_⟩
    intro hdigits hhead
    simp only [Bool.not_eq_true', Bool.and_eq_false_iff, decide_eq_false_iff_not] at hzeros
    rcases hzeros with (hlength | hall) | hhead'
    · obtain ⟨c, rest, rfl⟩ := List.exists_cons_of_ne_nil hident.ne
      obtain rfl := Option.some.inj hhead
      cases rest with
      | nil => rfl
      | cons d rest => exact absurd (by simp) hlength
    · exact absurd (List.all_eq_true.2 hdigits) (by simp [hall])
    · exact absurd hhead hhead'
  · intro h
    refine ⟨h.toIsIdentifier, ?_⟩
    rw [Bool.not_eq_true', ← Bool.not_eq_true]
    intro hboth
    simp only [Bool.and_eq_true, decide_eq_true_eq, List.all_eq_true] at hboth
    have hzero := h.zeros hboth.1.2 hboth.2
    rw [hzero] at hboth
    exact absurd hboth.1.1 (by simp)

theorem IsIdentifier.dot_notMem (h : IsIdentifier t) : '.' ∉ t := by
  intro hdot
  exact absurd (h.chars _ hdot) (by decide)

/-- What all the pieces satisfy is told of the parts that the dots join. -/
theorem all_pieces_iff {q : Text → Bool} {form : Text → Prop} (hq : ∀ t, q t = true ↔ form t)
    (hdot : ∀ t, form t → '.' ∉ t) :
    (Cut.pieces (· = '.') t).all q = true ↔ IsDotted form t := by
  constructor
  · intro h
    refine ⟨Cut.pieces (· = '.') t, Cut.pieces_ne_nil _ _, ?_, (Cut.join_pieces '.' t).symm⟩
    intro part hpart
    exact (hq part).1 (List.all_eq_true.1 h part hpart)
  · rintro ⟨parts, hne, hparts, rfl⟩
    obtain ⟨part, rest, rfl⟩ := List.exists_cons_of_ne_nil hne
    rw [Cut.pieces_join '.' part rest fun a ha => hdot a (hparts a ha)]
    exact List.all_eq_true.2 fun a ha => (hq a).2 (hparts a ha)

theorem isPre_iff : isPre t = true ↔ IsDotted IsPlainIdentifier t :=
  all_pieces_iff (fun _ => isPreIdentifier_iff) fun _ h => h.toIsIdentifier.dot_notMem

theorem isBuild_iff : isBuild t = true ↔ IsDotted IsIdentifier t :=
  all_pieces_iff (fun _ => isBuildIdentifier_iff) fun _ h => h.dot_notMem

/-- A suffix is written with its mark exactly if it is there. -/
theorem isSuffix_iff {mark : Char} {form : Text → Prop} (hnil : ¬ form []) {part : Text} :
    IsSuffix mark form t part ↔ t = suffixText mark part ∧ (part = [] ∨ form part) := by
  constructor
  · intro h
    cases h with
    | absent => exact ⟨rfl, .inl rfl⟩
    | present h =>
      cases part with
      | nil => exact absurd h hnil
      | cons c part => exact ⟨rfl, .inr h⟩
  · rintro ⟨rfl, hpart⟩
    cases part with
    | nil => exact .absent
    | cons c part =>
      rcases hpart with hpart | hpart
      · cases hpart
      · exact .present hpart

theorem isSuffix_pre_iff : IsSuffix '-' (IsDotted IsPlainIdentifier) t pre ↔
    t = suffixText '-' pre ∧ (pre = [] ∨ isPre pre = true) := by
  rw [isSuffix_iff (by rw [← isPre_iff]; decide), isPre_iff]

theorem isSuffix_build_iff : IsSuffix '+' (IsDotted IsIdentifier) t build ↔
    t = suffixText '+' build ∧ (build = [] ∨ isBuild build = true) := by
  rw [isSuffix_iff (by rw [← isBuild_iff]; decide), isBuild_iff]

theorem suffixText_of_ne_nil {mark : Char} (h : t ≠ []) : suffixText mark t = mark :: t := by
  rw [suffixText, if_neg (by simpa using h)]

/-- A checked suffix has something behind its mark. -/
theorem cons_eq_suffixText {mark c : Char} (form : Text → Bool) (hnil : form [] = false)
    (h : (if c = mark && form t then some t else none) = some pre) :
    c :: t = suffixText mark pre := by
  split at h
  · next hform =>
    cases h
    obtain ⟨hc, ht⟩ := Bool.and_eq_true_iff.1 hform
    have hne : t ≠ [] := by
      rintro rfl
      exact absurd (ht.symm.trans hnil) nofun
    rw [suffixText_of_ne_nil hne, of_decide_eq_true hc]
  · cases h

/-- What is split into two suffixes is written with them. -/
theorem eq_text_of_splitSuffix? (h : splitSuffix? suffix = some (pre, build)) :
    suffix = suffixText '-' pre ++ suffixText '+' build := by
  unfold splitSuffix? at h
  -- The build is what stands behind the first `+`, and all in front of it is the other suffix.
  cases hsplit : Cut.splitFirst (· = '+') suffix with
  | none =>
    rw [hsplit] at h
    dsimp only at h
    split at h
    · next p b hp hb =>
      cases h
      cases hb
      rw [show suffixText '+' [] = [] from rfl, List.append_nil]
      cases suffix with
      | nil =>
        cases hp
        rfl
      | cons c t => exact cons_eq_suffixText isPre rfl hp
    · cases h
  | some cut =>
    obtain ⟨front, back⟩ := cut
    rw [hsplit] at h
    dsimp only at h
    split at h
    · next p b hp hb =>
      cases h
      have hfront : front = suffixText '-' pre := by
        cases front with
        | nil =>
          cases hp
          rfl
        | cons c t => exact cons_eq_suffixText isPre rfl hp
      have hback : '+' :: back = suffixText '+' build :=
        cons_eq_suffixText isBuild rfl (by simpa using hb)
      rw [← hfront, ← hback]
      exact (Cut.splitFirst_mark_iff.1 hsplit).1
    · cases h

theorem splitSuffix?_eq_some_iff : splitSuffix? suffix = some (pre, build) ↔
    ∃ front back, suffix = front ++ back ∧
      IsSuffix '-' (IsDotted IsPlainIdentifier) front pre ∧
      IsSuffix '+' (IsDotted IsIdentifier) back build := by
  constructor
  · intro h
    obtain ⟨hpre, hbuild⟩ := forms_of_splitSuffix? h
    exact ⟨_, _, eq_text_of_splitSuffix? h, isSuffix_pre_iff.2 ⟨rfl, hpre⟩,
      isSuffix_build_iff.2 ⟨rfl, hbuild⟩⟩
  · rintro ⟨front, back, rfl, hfront, hback⟩
    obtain ⟨rfl, hpre⟩ := isSuffix_pre_iff.1 hfront
    obtain ⟨rfl, hbuild⟩ := isSuffix_build_iff.1 hback
    exact splitSuffix?_text hpre hbuild

/-! ## Section 4: Whole versions -/

theorem ofParts?_eq_some_iff {a b c : Text} : ofParts? a b c suffix = some v ↔
    IsNumeral a v.major ∧ IsNumeral b v.minor ∧ IsNumeral c v.patch ∧
      splitSuffix? suffix = some (v.pre, v.build) := by
  simp only [ofParts?, Option.bind_eq_bind, Option.bind_eq_some_iff]
  constructor
  · rintro ⟨x, hx, y, hy, z, hz, ⟨pre, build⟩, hsplit, heq⟩
    cases heq
    exact ⟨number?_eq_some_iff.1 hx, number?_eq_some_iff.1 hy, number?_eq_some_iff.1 hz, hsplit⟩
  · rintro ⟨hx, hy, hz, hsplit⟩
    exact ⟨_, number?_eq_some_iff.2 hx, _, number?_eq_some_iff.2 hy, _,
      number?_eq_some_iff.2 hz, _, hsplit, rfl⟩

theorem isNumeral_zero : IsNumeral ['0'] n ↔ n = 0 := by
  rw [← number?_eq_some_iff]
  exact ⟨fun h => (Option.some.inj h).symm, fun h => by rw [h]; rfl⟩

theorem IsCore.isDigit_of_mem (h : IsCore core x y z) {c : Char} (hc : c ∈ core) :
    Text.isDigit c = true ∨ c = '.' := by
  have hjoin : ∀ parts : List Text, (∀ a ∈ parts, ∀ c ∈ a, Text.isDigit c = true) →
      c ∈ Cut.join ['.'] parts → Text.isDigit c = true ∨ c = '.' := by
    intro parts hparts hc
    rcases Cut.mem_join hc with hdot | ⟨a, ha, hc⟩
    · exact .inr (List.mem_singleton.1 hdot)
    · exact .inl (hparts a ha c hc)
  cases h with
  | major ha => exact .inl (ha.digits c hc)
  | minor ha hb => exact hjoin _ (by simpa using ⟨ha.digits, hb.digits⟩) hc
  | patch ha hb hd => exact hjoin _ (by simpa using ⟨ha.digits, hb.digits, hd.digits⟩) hc

/-- A core starts with a digit. -/
theorem IsCore.exists_cons (h : IsCore core x y z) :
    ∃ c rest, core = c :: rest ∧ Text.isDigit c = true := by
  have hnumeral : ∀ {a n}, IsNumeral a n → ∃ c rest, a = c :: rest ∧ Text.isDigit c = true := by
    intro a n ha
    obtain ⟨c, rest, rfl⟩ := List.exists_cons_of_ne_nil ha.ne
    exact ⟨c, rest, rfl, ha.digits c (List.mem_cons_self ..)⟩
  cases h with
  | major ha => exact hnumeral ha
  | minor ha | patch ha =>
    obtain ⟨c, rest, rfl, hc⟩ := hnumeral ha
    exact ⟨c, _, rfl, hc⟩

/-- The cut before the suffixes loses nothing. -/
theorem exists_cutSuffix (t : Text) :
    ∃ core suffix, cutSuffix t = (core, suffix) ∧ t = core ++ suffix := by
  rw [cutSuffix, List.span_eq_takeWhile_dropWhile]
  exact ⟨_, _, rfl, List.takeWhile_append_dropWhile.symm⟩

/-- What a core and a suffix are read as is what the grammar tells of both together. -/
theorem isLoose_of_ofParts? {a b c suffix : Text} (h : ofParts? a b c suffix = some v)
    (hcore : IsCore core v.major v.minor v.patch) : IsLoose (core ++ suffix) v := by
  obtain ⟨_, _, _, hsplit⟩ := ofParts?_eq_some_iff.1 h
  obtain ⟨front, back, rfl, hfront, hback⟩ := splitSuffix?_eq_some_iff.1 hsplit
  exact .mk hcore hfront hback

/-- The loose reading, once blanks and mark are off. -/
theorem ofLooseText?_eq_some_iff (s : Text) : ofLooseText? s = some v ↔
    IsLoose (dropMark (Cut.trim Text.isBlank s)) v := by
  unfold ofLooseText?
  generalize dropMark (Cut.trim Text.isBlank s) = t
  constructor
  · intro h
    -- The pieces between the dots give back the core, and with the suffix the text.
    obtain ⟨core, suffix, hcut, rfl⟩ := exists_cutSuffix t
    have hcore := Cut.join_pieces '.' core
    rw [hcut] at h
    dsimp only at h
    split at h
    · next a hpieces =>
      apply isLoose_of_ofParts? h
      rw [← hcore, hpieces]
      obtain ⟨ha, hb, hc, _⟩ := ofParts?_eq_some_iff.1 h
      rw [isNumeral_zero.1 hb, isNumeral_zero.1 hc]
      exact .major ha
    · next a b hpieces =>
      apply isLoose_of_ofParts? h
      rw [← hcore, hpieces]
      obtain ⟨ha, hb, hc, _⟩ := ofParts?_eq_some_iff.1 h
      rw [isNumeral_zero.1 hc]
      exact .minor ha hb
    · next a b c hpieces =>
      apply isLoose_of_ofParts? h
      rw [← hcore, hpieces]
      obtain ⟨ha, hb, hc, _⟩ := ofParts?_eq_some_iff.1 h
      exact .patch ha hb hc
    · cases h
  · intro h
    cases h with
    | @mk core front back pre build x y z hcore hpre hbuild =>
      have hsplit := splitSuffix?_eq_some_iff.2 ⟨front, back, rfl, hpre, hbuild⟩
      -- The suffixes begin at the first `-` or `+`, and the core has neither.
      have hcut : cutSuffix (core ++ (front ++ back)) = (core, front ++ back) := by
        rw [(isSuffix_pre_iff.1 hpre).1, (isSuffix_build_iff.1 hbuild).1]
        exact cutSuffix_append (fun _ hc => hcore.isDigit_of_mem hc) pre build
      have hzero : IsNumeral ['0'] 0 := isNumeral_zero.2 rfl
      rw [hcut]
      dsimp only
      -- One case for each number of parts; the missing ones are read as zero.
      cases hcore with
      | major ha =>
        have hpieces : Cut.pieces (· = '.') core = [core] :=
          Cut.pieces_join '.' core [] (by simpa using ha.dot_notMem)
        rw [hpieces]
        exact ofParts?_eq_some_iff.2 ⟨ha, hzero, hzero, hsplit⟩
      | minor ha hb =>
        rw [Cut.pieces_join '.' _ _ (by simpa using ⟨ha.dot_notMem, hb.dot_notMem⟩)]
        exact ofParts?_eq_some_iff.2 ⟨ha, hb, hzero, hsplit⟩
      | patch ha hb hc =>
        rw [Cut.pieces_join '.' _ _
          (by simpa using ⟨ha.dot_notMem, hb.dot_notMem, hc.dot_notMem⟩)]
        exact ofParts?_eq_some_iff.2 ⟨ha, hb, hc, hsplit⟩

/-- What follows a mark that may be there is what is left when it is dropped. -/
theorem isLoose_dropMark_iff (t : Text) : IsLoose (dropMark t) v ↔
    ∃ mark body, t = mark ++ body ∧ (mark = [] ∨ mark = ['v'] ∨ mark = ['V']) ∧
      IsLoose body v := by
  constructor
  · intro h
    cases t with
    | nil => exact ⟨[], [], rfl, .inl rfl, h⟩
    | cons c rest =>
      rw [dropMark] at h
      split at h
      · next hmark =>
        refine ⟨[c], rest, rfl, .inr ?_, h⟩
        rw [Bool.or_eq_true, decide_eq_true_eq, decide_eq_true_eq] at hmark
        rcases hmark with rfl | rfl
        · exact .inl rfl
        · exact .inr rfl
      · exact ⟨[], c :: rest, rfl, .inl rfl, h⟩
  · rintro ⟨mark, body, rfl, hmark, hbody⟩
    rcases hmark with rfl | rfl | rfl
    · -- A version starts with a digit, so nothing of it is dropped.
      have hsame : dropMark body = body := by
        obtain ⟨hcore⟩ := hbody
        obtain ⟨c, rest, rfl, hc⟩ := hcore.exists_cons
        exact dropMark_of_isDigit hc _
      rwa [List.nil_append, hsame]
    · exact hbody
    · exact hbody

/-- The strict reading accepts the texts of semantic versions. -/
theorem ofText?_eq_some_iff (s : Text) : ofText? s = some v ↔ v.IsSemantic ∧ v.text = s := by
  constructor
  · intro h
    unfold ofText? at h
    obtain ⟨core, suffix, hcut, rfl⟩ := exists_cutSuffix s
    have hcore := Cut.join_pieces '.' core
    rw [hcut] at h
    dsimp only at h
    split at h
    · next a b c hpieces =>
      refine ⟨isSemantic_of_ofParts? h, ?_⟩
      obtain ⟨ha, hb, hc, hsplit⟩ := ofParts?_eq_some_iff.1 h
      have hsame : v.coreText = core := by
        rw [← hcore, hpieces, coreText, ← ha.eq_ofNat, ← hb.eq_ofNat, ← hc.eq_ofNat]
        simp [Cut.join]
      rw [text, List.append_assoc, ← eq_text_of_splitSuffix? hsplit, hsame]
    · cases h
  · rintro ⟨hv, rfl⟩
    unfold ofText?
    rw [cutSuffix_text]
    dsimp only
    rw [pieces_coreText]
    exact ofParts?_eq_some_iff.2 ⟨number?_eq_some_iff.1 (number?_ofNat hv.major),
      number?_eq_some_iff.1 (number?_ofNat hv.minor),
      number?_eq_some_iff.1 (number?_ofNat hv.patch), splitSuffix?_text hv.pre hv.build⟩

/-- The loose reading gives a version exactly where its grammar tells one, and
    the one it tells.  The strict reading gives a version for its text alone, so
    the two agree there, and every version is read back from its text. -/
theorem readings_by_grammar (s : Text) :
    (∀ v, ofLooseText? s = some v ↔
      ∃ mark body, Cut.TrimsTo Text.isBlank s (mark ++ body) ∧
        (mark = [] ∨ mark = ['v'] ∨ mark = ['V']) ∧ IsLoose body v) ∧
    (∀ v, ofText? s = some v ↔ ofLooseText? s = some v ∧ v.text = s) ∧
    ∀ v : Version, v.IsSemantic → ofText? v.text = some v ∧ ofLooseText? v.text = some v := by
  refine ⟨?_, ?_, ?_⟩
  · intro v
    rw [ofLooseText?_eq_some_iff, isLoose_dropMark_iff]
    constructor
    · rintro ⟨mark, body, htrim, hmark, hbody⟩
      exact ⟨mark, body, Cut.trimsTo_iff.2 htrim, hmark, hbody⟩
    · rintro ⟨mark, body, htrim, hmark, hbody⟩
      exact ⟨mark, body, Cut.trimsTo_iff.1 htrim, hmark, hbody⟩
  · intro v
    constructor
    · intro h
      obtain ⟨hv, rfl⟩ := (ofText?_eq_some_iff _).1 h
      exact ⟨hv.ofLooseText?_text, rfl⟩
    · rintro ⟨h, hsame⟩
      exact (ofText?_eq_some_iff _).2 ⟨isSemantic_of_ofLooseText? h, hsame⟩
  · intro v hv
    exact ⟨(ofText?_eq_some_iff _).2 ⟨hv, rfl⟩, hv.ofLooseText?_text⟩

/-- A short version with both suffixes, as people write it and as it is written
    down. -/
theorem readings_by_grammar_short :
    let v : Version := ⟨1, 2, 0, "beta.1".toList, "05-x".toList⟩
    (∃ mark body, Cut.TrimsTo Text.isBlank " v1.2-beta.1+05-x\n".toList (mark ++ body) ∧
      (mark = [] ∨ mark = ['v'] ∨ mark = ['V']) ∧ IsLoose body v) ∧
    ofText? " v1.2-beta.1+05-x\n".toList = none ∧
    v.IsSemantic ∧ ofText? v.text = some v ∧ ofLooseText? v.text = some v := by
  intro v
  have hv : v.IsSemantic := by decide
  have hread : ofLooseText? " v1.2-beta.1+05-x\n".toList = some v := by decide
  obtain ⟨hloose, hstrict, hback⟩ := readings_by_grammar " v1.2-beta.1+05-x\n".toList
  refine ⟨(hloose v).1 hread, ?_, hv, hback v hv⟩
  cases h : ofText? " v1.2-beta.1+05-x\n".toList with
  | none => rfl
  | some w =>
    obtain ⟨hread', htext⟩ := (hstrict w).1 h
    rw [hread] at hread'
    rw [← Option.some.inj hread'] at htext
    exact absurd htext (by decide)

end Version
end ScriptDeps
