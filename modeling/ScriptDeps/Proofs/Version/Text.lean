import Mathlib.Data.List.TakeDrop
import ScriptDeps.Proofs.Text.Number
import ScriptDeps.Proofs.Text.Trim
import ScriptDeps.Version

/-! # Version texts there and back

    A version that could be written down as one is semantic: its numbers fit
    and its suffixes have the right form (`IsSemantic`).  Every reading gives
    such a version, and the text of such a version is read back, also by the
    loose reading (`ofLooseText?_text`). -/

namespace ScriptDeps

/-! ## Section 1: Characters and numbers -/

namespace Text

/-- A printable ASCII character other than the space is not blank. -/
theorem isBlank_of_printable {c : Char} (hlow : 0x20 < c.toNat) (hhigh : c.toNat < 0x7F) :
    isBlank c = false := by
  simp only [isBlank, blankRanges, List.any_cons, List.any_nil, Bool.or_false]
  simp
  omega

theorem toNat_of_isLetterOrDigit {c : Char} (h : isLetterOrDigit c = true) :
    0x30 ≤ c.toNat ∧ c.toNat < 0x7B := by
  simp only [isLetterOrDigit, isLetter, isDigit, Bool.or_eq_true, Bool.and_eq_true,
    decide_eq_true_eq] at h
  rcases h with (⟨hlow, hhigh⟩ | ⟨hlow, hhigh⟩) | ⟨hlow, hhigh⟩
  · have hlow : 97 ≤ c.toNat := hlow
    have hhigh : c.toNat ≤ 122 := hhigh
    omega
  · have hlow : 65 ≤ c.toNat := hlow
    have hhigh : c.toNat ≤ 90 := hhigh
    omega
  · have hlow : 48 ≤ c.toNat := hlow
    have hhigh : c.toNat ≤ 57 := hhigh
    omega

theorem isLetterOrDigit_of_isDigit {c : Char} (h : isDigit c = true) :
    isLetterOrDigit c = true := by
  rw [isLetterOrDigit, h, Bool.or_true]

end Text

namespace Version

theorem number?_ofNat {n : Nat} (h : n < Decimal.wordLimit) :
    number? (Decimal.ofNat n) = some n := by
  have hdigits : (Decimal.ofNat n).all Text.isDigit = true :=
    List.all_eq_true.2 fun c hc => Decimal.isDigit_of_mem_ofNat hc
  have hnumber : Decimal.toNat? (Decimal.ofNat n) = some n := by
    rw [Decimal.toNat?, hdigits, if_pos (by simp [Decimal.ofNat_ne_nil]), Decimal.value_ofNat]
  have hfront : ((Decimal.ofNat n).length = 1 || (Decimal.ofNat n).head? != some '0') = true := by
    by_cases hn : n = 0
    · subst hn
      rfl
    · simp [Decimal.head?_ofNat hn]
  rw [number?, hnumber]
  dsimp only
  rw [hfront, if_pos (by simpa using h)]

theorem lt_of_number? {t : Text} {n : Nat} (h : number? t = some n) : n < Decimal.wordLimit := by
  unfold number? at h
  split at h
  · split at h
    · next hfits =>
      cases h
      simp only [Bool.and_eq_true, decide_eq_true_eq] at hfits
      exact hfits.2
    · cases h
  · cases h

/-! ## Section 2: Semantic versions -/

/-- The numbers fit in sixty-four bits, and the suffixes are what they are
    called. -/
structure IsSemantic (v : Version) : Prop where
  major : v.major < Decimal.wordLimit
  minor : v.minor < Decimal.wordLimit
  patch : v.patch < Decimal.wordLimit
  pre   : v.pre = [] ∨ isPre v.pre = true
  build : v.build = [] ∨ isBuild v.build = true

instance (v : Version) : Decidable v.IsSemantic :=
  decidable_of_iff (v.major < Decimal.wordLimit ∧ v.minor < Decimal.wordLimit ∧
      v.patch < Decimal.wordLimit ∧ (v.pre = [] ∨ isPre v.pre = true) ∧
      (v.build = [] ∨ isBuild v.build = true))
    ⟨fun ⟨h₁, h₂, h₃, h₄, h₅⟩ => ⟨h₁, h₂, h₃, h₄, h₅⟩,
      fun h => ⟨h.major, h.minor, h.patch, h.pre, h.build⟩⟩

variable {v : Version} {t suffix pre build : Text}

/-- The characters that a version is written with. -/
def isVersionChar (c : Char) : Bool := isIdentifierChar c || c = '.' || c = '+'

theorem isBlank_of_isVersionChar {c : Char} (h : isVersionChar c = true) :
    Text.isBlank c = false := by
  simp only [isVersionChar, isIdentifierChar, Bool.or_eq_true, decide_eq_true_eq] at h
  rcases h with ((h | rfl) | rfl) | rfl
  · have hrange := Text.toNat_of_isLetterOrDigit h
    exact Text.isBlank_of_printable (by omega) (by omega)
  · rfl
  · rfl
  · rfl

/-- A text of pieces with dots between them has the characters of its pieces. -/
theorem mem_part {q : Text → Bool}
    (hq : ∀ piece, q piece = true → ∀ c ∈ piece, isIdentifierChar c = true)
    (h : (Cut.pieces (· = '.') t).all q = true) {c : Char} (hc : c ∈ t) :
    isIdentifierChar c = true ∨ c = '.' := by
  rw [← Cut.join_pieces '.' t] at hc
  rcases Cut.mem_join hc with hdot | ⟨piece, hpiece, hc⟩
  · exact .inr (List.mem_singleton.1 hdot)
  · exact .inl (hq piece (List.all_eq_true.1 h piece hpiece) c hc)

theorem mem_buildIdentifier {piece : Text} (h : isBuildIdentifier piece = true) :
    ∀ c ∈ piece, isIdentifierChar c = true := by
  simp only [isBuildIdentifier, Bool.and_eq_true, List.all_eq_true] at h
  exact h.2

theorem mem_isPre (h : isPre t = true) {c : Char} (hc : c ∈ t) :
    isIdentifierChar c = true ∨ c = '.' := by
  refine mem_part (fun piece hpiece => ?_) h hc
  simp only [isPreIdentifier, Bool.and_eq_true] at hpiece
  exact mem_buildIdentifier hpiece.1

theorem mem_isBuild (h : isBuild t = true) {c : Char} (hc : c ∈ t) :
    isIdentifierChar c = true ∨ c = '.' :=
  mem_part (fun _ hpiece => mem_buildIdentifier hpiece) h hc

theorem plus_notMem_pre (h : pre = [] ∨ isPre pre = true) : ∀ c ∈ pre, c ≠ '+' := by
  rintro c hc rfl
  rcases h with rfl | h
  · exact absurd hc List.not_mem_nil
  · rcases mem_isPre h hc with h | h
    · exact absurd h (by decide)
    · exact absurd h (by decide)

/-! ## Section 3: Suffixes -/

theorem splitSuffix?_text (hpre : pre = [] ∨ isPre pre = true)
    (hbuild : build = [] ∨ isBuild build = true) :
    splitSuffix? (suffixText '-' pre ++ suffixText '+' build) = some (pre, build) := by
  -- The first plus sign is that of the build part.
  have hfree : ∀ c ∈ suffixText '-' pre, decide (c = '+') = false := by
    intro c hc
    unfold suffixText at hc
    split at hc
    · exact absurd hc List.not_mem_nil
    · rcases List.mem_cons.1 hc with rfl | hc
      · rfl
      · simpa using plus_notMem_pre hpre c hc
  -- What stands before the build part is the pre-release part, with its mark.
  have hfront : suffixText '-' pre = [] ∧ pre = [] ∨
      suffixText '-' pre = '-' :: pre ∧ isPre pre = true := by
    rcases hpre with hnil | hpre
    · exact .inl ⟨by rw [hnil]; rfl, hnil⟩
    · cases pre with
      | nil => exact .inl ⟨rfl, rfl⟩
      | cons c pre => exact .inr ⟨rfl, hpre⟩
  unfold splitSuffix?
  rcases hbuild with hnil | hbuild
  · have hnone : Cut.splitFirst (· = '+') (suffixText '-' pre ++ suffixText '+' build) = none := by
      rw [hnil]
      exact (Cut.splitFirst_eq_none _ _).2 (by simpa [suffixText] using hfree)
    rw [hnone, hnil, show suffixText '+' [] = [] from rfl, List.append_nil]
    rcases hfront with ⟨hfront, hpre⟩ | ⟨hfront, hpre⟩
    · rw [hfront, hpre]
    · simp [hfront, hpre]
  · have hmark : suffixText '+' build = '+' :: build := by
      cases build with
      | nil => cases hbuild
      | cons c build => rfl
    rw [hmark, Cut.splitFirst_append (by simp) hfree]
    rcases hfront with ⟨hfront, hpre⟩ | ⟨hfront, hpre⟩
    · rw [hfront, hpre]
      simp [hbuild]
    · simp [hfront, hpre, hbuild]

theorem forms_of_splitSuffix? (h : splitSuffix? suffix = some (pre, build)) :
    (pre = [] ∨ isPre pre = true) ∧ (build = [] ∨ isBuild build = true) := by
  unfold splitSuffix? at h
  dsimp only at h
  split at h
  · next p b hpre hbuild =>
    cases h
    constructor
    · split at hpre
      · cases hpre
        exact .inl rfl
      · split at hpre
        · next hform =>
          cases hpre
          exact .inr (Bool.and_eq_true_iff.1 hform).2
        · cases hpre
    · split at hbuild
      · cases hbuild
        exact .inl rfl
      · split at hbuild
        · next hform =>
          cases hbuild
          exact .inr hform
        · cases hbuild
  · cases h

/-! ## Section 4: Whole versions -/

theorem isVersionChar_of_mem_suffixText {mark : Char} (hmark : isVersionChar mark = true)
    (ht : ∀ c ∈ t, isIdentifierChar c = true ∨ c = '.') :
    ∀ c ∈ suffixText mark t, isVersionChar c = true := by
  intro c hc
  unfold suffixText at hc
  split at hc
  · exact absurd hc List.not_mem_nil
  · rcases List.mem_cons.1 hc with rfl | hc
    · exact hmark
    · rcases ht c hc with h | rfl
      · simp [isVersionChar, h]
      · rfl

theorem mem_coreText {c : Char} (hc : c ∈ v.coreText) : Text.isDigit c = true ∨ c = '.' := by
  simp only [coreText, List.cons_append, List.append_assoc, List.mem_append, List.mem_cons] at hc
  rcases hc with hc | rfl | hc | rfl | hc
  · exact .inl (Decimal.isDigit_of_mem_ofNat hc)
  · exact .inr rfl
  · exact .inl (Decimal.isDigit_of_mem_ofNat hc)
  · exact .inr rfl
  · exact .inl (Decimal.isDigit_of_mem_ofNat hc)

theorem IsSemantic.isVersionChar_of_mem (h : v.IsSemantic) :
    ∀ c ∈ v.text, isVersionChar c = true := by
  intro c hc
  rw [text, List.mem_append, List.mem_append] at hc
  rcases hc with (hc | hc) | hc
  · rcases mem_coreText hc with hdigit | rfl
    · simp [isVersionChar, isIdentifierChar, Text.isLetterOrDigit_of_isDigit hdigit]
    · rfl
  · refine isVersionChar_of_mem_suffixText rfl (fun c hc => ?_) c hc
    rcases h.pre with hnil | hpre
    · rw [hnil] at hc
      exact absurd hc List.not_mem_nil
    · exact mem_isPre hpre hc
  · refine isVersionChar_of_mem_suffixText rfl (fun c hc => ?_) c hc
    rcases h.build with hnil | hbuild
    · rw [hnil] at hc
      exact absurd hc List.not_mem_nil
    · exact mem_isBuild hbuild hc

theorem pieces_coreText (v : Version) : Cut.pieces (· = '.') v.coreText =
    [Decimal.ofNat v.major, Decimal.ofNat v.minor, Decimal.ofNat v.patch] := by
  have hjoin : v.coreText =
      Cut.join ['.'] [Decimal.ofNat v.major, Decimal.ofNat v.minor, Decimal.ofNat v.patch] := by
    simp [coreText, Cut.join]
  have hfree : ∀ n, '.' ∉ Decimal.ofNat n := by
    intro n hdot
    exact absurd (Decimal.isDigit_of_mem_ofNat hdot) (by decide)
  rw [hjoin]
  exact Cut.pieces_join _ _ _ (by simp [hfree])

theorem stops_suffixText {p : Char → Bool} {mark : Char} (hmark : p mark = false) {rest : Text}
    (hrest : Cut.Stops p rest) : Cut.Stops p (suffixText mark t ++ rest) := by
  unfold suffixText
  split
  · exact hrest
  · exact Cut.stops_cons.2 hmark

/-- Digits and dots end before the suffixes. -/
theorem cutSuffix_append {core : Text} (hcore : ∀ c ∈ core, Text.isDigit c = true ∨ c = '.')
    (pre build : Text) :
    cutSuffix (core ++ (suffixText '-' pre ++ suffixText '+' build)) =
      (core, suffixText '-' pre ++ suffixText '+' build) := by
  have hrun : ∀ c ∈ core, (!(decide (c = '-') || decide (c = '+'))) = true := by
    intro c hc
    rcases hcore c hc with hdigit | rfl
    · have hdash : c ≠ '-' := by
        rintro rfl
        exact absurd hdigit (by decide)
      have hplus : c ≠ '+' := by
        rintro rfl
        exact absurd hdigit (by decide)
      simp [hdash, hplus]
    · rfl
  have hstops : Cut.Stops (fun c => !(decide (c = '-') || decide (c = '+')))
      (suffixText '-' pre ++ suffixText '+' build) := by
    refine stops_suffixText rfl ?_
    rw [← List.append_nil (suffixText '+' build)]
    exact stops_suffixText rfl (Cut.stops_nil _)
  rw [cutSuffix, List.span_eq_takeWhile_dropWhile]
  exact Prod.ext (Cut.takeWhile_run hrun hstops) (Cut.dropWhile_run hrun hstops)

theorem cutSuffix_text (v : Version) :
    cutSuffix v.text = (v.coreText, suffixText '-' v.pre ++ suffixText '+' v.build) := by
  rw [text, List.append_assoc]
  exact cutSuffix_append (fun _ hc => mem_coreText hc) v.pre v.build

/-- There is no `v` to drop in front of a digit. -/
theorem dropMark_of_isDigit {c : Char} (h : Text.isDigit c = true) (rest : Text) :
    dropMark (c :: rest) = c :: rest := by
  have hmark : ¬ (decide (c = 'v') || decide (c = 'V')) = true := by
    rw [Bool.or_eq_true, decide_eq_true_eq, decide_eq_true_eq]
    rintro (rfl | rfl)
    · exact absurd h (by decide)
    · exact absurd h (by decide)
  rw [dropMark, if_neg hmark]

theorem dropMark_text (v : Version) : dropMark v.text = v.text := by
  cases hcore : Decimal.ofNat v.major with
  | nil => exact absurd hcore (Decimal.ofNat_ne_nil _)
  | cons c rest =>
    have hdigit : Text.isDigit c = true :=
      Decimal.isDigit_of_mem_ofNat (hcore ▸ List.mem_cons_self ..)
    have htext : v.text = c :: (rest ++ ('.' :: Decimal.ofNat v.minor ++
        '.' :: Decimal.ofNat v.patch) ++ suffixText '-' v.pre ++ suffixText '+' v.build) := by
      simp [text, coreText, hcore]
    rw [htext, dropMark_of_isDigit hdigit]

/-- The text of a semantic version is read back, however loosely. -/
theorem IsSemantic.ofLooseText?_text (h : v.IsSemantic) : ofLooseText? v.text = some v := by
  have htrim : Cut.trim Text.isBlank v.text = v.text :=
    Cut.trim_of_isTrimmed (Cut.isTrimmed_of_forall fun c hc =>
      isBlank_of_isVersionChar (h.isVersionChar_of_mem c hc))
  unfold ofLooseText?
  rw [htrim, dropMark_text, cutSuffix_text]
  dsimp only
  rw [pieces_coreText]
  dsimp only
  rw [ofParts?, number?_ofNat h.major, number?_ofNat h.minor, number?_ofNat h.patch,
    splitSuffix?_text h.pre h.build]
  rfl

theorem isSemantic_of_ofParts? {major minor patch : Text}
    (h : ofParts? major minor patch suffix = some v) : v.IsSemantic := by
  simp only [ofParts?, Option.bind_eq_bind, Option.bind_eq_some_iff] at h
  obtain ⟨x, hx, y, hy, z, hz, ⟨pre, build⟩, hsplit, heq⟩ := h
  cases heq
  obtain ⟨hpre, hbuild⟩ := forms_of_splitSuffix? hsplit
  exact ⟨lt_of_number? hx, lt_of_number? hy, lt_of_number? hz, hpre, hbuild⟩

/-- Only semantic versions are read. -/
theorem isSemantic_of_ofLooseText? (h : ofLooseText? t = some v) : v.IsSemantic := by
  unfold ofLooseText? at h
  dsimp only at h
  split at h
  · exact isSemantic_of_ofParts? h
  · exact isSemantic_of_ofParts? h
  · exact isSemantic_of_ofParts? h
  · cases h

end Version
end ScriptDeps
