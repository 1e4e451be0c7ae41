import ScriptDeps.Proofs.FileSystem.Entry
import ScriptDeps.Proofs.Text.Utf8
import ScriptDeps.Script.Source
import ScriptDeps.Store.Marker

/-! # Names in a store

    The names that a store gives its directories and files can be those of
    directory entries: digests always, the names of markers unless they are
    too long.  The name of a marker is never that of a file of an entry. -/

namespace ScriptDeps

/-! ## Section 1: Digests -/

/-- A text of hexadecimal digits. -/
def IsHex (t : Text) : Prop := ∀ c ∈ t, ∃ n < 16, c = Hex.digit n

theorem isHex_sha256Hex (message : Bytes) : IsHex (sha256Hex message) := by
  intro c hc
  obtain ⟨b, _, hmem⟩ := List.mem_flatMap.1 hc
  have hb := b.toNat_lt
  simp only [List.mem_cons, List.not_mem_nil, or_false] at hmem
  rcases hmem with rfl | rfl
  · exact ⟨b.toNat / 16, by omega, rfl⟩
  · exact ⟨b.toNat % 16, by omega, rfl⟩

theorem length_sha256Hex (message : Bytes) : (sha256Hex message).length = 64 := by
  have hofBytes : ∀ bs : Bytes, (Hex.ofBytes bs).length = 2 * bs.length := by
    intro bs
    induction bs with
    | nil => rfl
    | cons b bs ih =>
      show (Hex.ofBytes bs).length + 2 = _
      rw [ih, List.length_cons]
      omega
  rw [sha256Hex, hofBytes]
  rfl

theorem mem_encode_hex {t : Text} (h : IsHex t) {b : UInt8} (hb : b ∈ Utf8.encode t) :
    ∃ n < 16, [b] = Utf8.encode [Hex.digit n] := by
  obtain ⟨c, hc, hmem⟩ := List.mem_flatMap.1 hb
  obtain ⟨n, hn, rfl⟩ := h c hc
  have hall : ∀ n < 16, (Utf8.encodeCode (Hex.digit n).toNat).length = 1 ∧
      Utf8.encode [Hex.digit n] = Utf8.encodeCode (Hex.digit n).toNat := by decide
  obtain ⟨hlength, hencode⟩ := hall n hn
  obtain ⟨d, hd⟩ := List.length_eq_one_iff.1 hlength
  rw [hd, List.mem_singleton] at hmem
  exact ⟨n, hn, by rw [hencode, hd, hmem]⟩

theorem length_encode_hex {t : Text} (h : IsHex t) : (Utf8.encode t).length = t.length := by
  induction t with
  | nil => rfl
  | cons c t ih =>
    obtain ⟨n, hn, rfl⟩ := h c (List.mem_cons_self ..)
    have hall : ∀ n < 16, (Utf8.encodeCode (Hex.digit n).toNat).length = 1 := by decide
    rw [Utf8.encode_cons, List.length_append, hall n hn, List.length_cons,
      ih fun c hc => h c (List.mem_cons_of_mem _ hc)]
    omega

/-- No hexadecimal digit is a byte that means something in a path. -/
theorem notMem_encode_hex {t : Text} (h : IsHex t) {b : UInt8}
    (hb : b = 0 ∨ b = Path.slash ∨ b = Path.dot) : b ∉ Utf8.encode t := by
  intro hmem
  obtain ⟨n, hn, hdigit⟩ := mem_encode_hex h hmem
  have hall : ∀ n < 16, [0] ≠ Utf8.encode [Hex.digit n] ∧
      [Path.slash] ≠ Utf8.encode [Hex.digit n] ∧ [Path.dot] ≠ Utf8.encode [Hex.digit n] := by
    decide
  obtain ⟨hzero, hslash, hdot⟩ := hall n hn
  rcases hb with rfl | rfl | rfl
  · exact hzero hdigit
  · exact hslash hdigit
  · exact hdot hdigit

/-- A digest names a directory entry. -/
theorem isEntryName_sha256Hex (message : Bytes) :
    Path.IsEntryName (Utf8.encode (sha256Hex message)) := by
  have hhex := isHex_sha256Hex message
  have hlength := length_encode_hex hhex
  rw [length_sha256Hex] at hlength
  have hdot := notMem_encode_hex hhex (.inr (.inr rfl))
  refine ⟨⟨?_, notMem_encode_hex hhex (.inr (.inl rfl)), ?_, ?_⟩,
    notMem_encode_hex hhex (.inl rfl), by rw [hlength]; decide⟩
  · intro hnil
    rw [hnil] at hlength
    exact absurd hlength (by decide)
  · intro hhere
    exact hdot (hhere ▸ List.mem_singleton_self _)
  · intro hup
    exact hdot (hup ▸ List.mem_cons_self ..)

namespace Store

/-! ## Section 2: Files of an entry -/

def manifestName : Name := Utf8.encode Manifest.manifestFile
def placeholderName : Name := Utf8.encode Manifest.placeholderFile
def recordName : Name := Utf8.encode Record.fileName

theorem manifestIn_eq (dir : Path) : manifestIn dir = dir.child manifestName := rfl
theorem placeholderIn_eq (dir : Path) : placeholderIn dir = dir.child placeholderName := rfl
theorem recordIn_eq (dir : Path) : recordIn dir = dir.child recordName := rfl
theorem buildIn_eq (dir : Path) : buildIn dir = dir.child buildName := rfl

theorem isEntryName_storeName : Path.IsEntryName storeName := by decide
theorem isEntryName_markersName : Path.IsEntryName markersName := by decide
theorem isEntryName_manifestName : Path.IsEntryName manifestName := by decide
theorem isEntryName_placeholderName : Path.IsEntryName placeholderName := by decide
theorem isEntryName_recordName : Path.IsEntryName recordName := by decide

theorem entry_eq (s : Store) (hash : Text) : s.entry hash = s.entries.child (Utf8.encode hash) :=
  rfl

theorem components_entries (s : Store) :
    s.entries.components = s.root.components ++ [storeName].map .name :=
  Path.components_child s.root isEntryName_storeName.1

theorem components_markers (s : Store) :
    s.markers.components = s.root.components ++ [markersName].map .name :=
  Path.components_child s.root isEntryName_markersName.1

theorem components_entry (s : Store) {hash : Text} (h : Path.IsEntryName (Utf8.encode hash)) :
    (s.entry hash).components =
      s.root.components ++ [storeName, Utf8.encode hash].map .name := by
  rw [entry_eq, Path.components_child _ h.1, components_entries, List.append_assoc]
  rfl

end Store

/-! ## Section 3: Names that are texts -/

/-- The bytes of the path are a text. -/
def Path.IsText (p : Path) : Prop := ∃ t, p.bytes = Utf8.encode t

theorem Path.IsText.child {p : Path} (h : p.IsText) {t : Text}
    (hn : Path.IsPlainName (Utf8.encode t)) : (p.child (Utf8.encode t)).IsText := by
  obtain ⟨front, hfront⟩ := h
  have hslash : Utf8.encode ('/' :: t) = Path.slash :: Utf8.encode t := rfl
  rcases Path.child_cases p hn with ⟨_, hchild⟩ | ⟨b, rfl, hchild⟩ | ⟨b, _, rfl, hchild⟩
  · exact ⟨t, by rw [hchild]⟩
  · refine ⟨front ++ t, ?_⟩
    rw [hchild, Utf8.encode_append, ← hfront, List.append_assoc]
    rfl
  · refine ⟨front ++ '/' :: t, ?_⟩
    rw [hchild, Utf8.encode_append, ← hfront, hslash]

namespace Store

/-- The directory of an entry is a text if the root of the store is. -/
theorem isText_entry {s : Store} (h : s.root.IsText) {hash : Text}
    (hhash : Path.IsPlainName (Utf8.encode hash)) : (s.entry hash).IsText :=
  (Path.IsText.child h isEntryName_storeName.1).child hhash

theorem exists_render {r : Record} (h : r.directory.IsText) : ∃ t, r.render? = some t := by
  obtain ⟨d, hd⟩ := h
  have hdecode : Utf8.decode r.directory.bytes = some d := Utf8.decode_eq_some_iff.2 hd
  unfold Record.render?
  rw [hdecode]
  exact ⟨_, rfl⟩

/-! ## Section 4: Markers -/

/-- The name of a file is a piece between slashes. -/
theorem slash_notMem_of_fileName? {p : Path} {file : Name} (h : p.fileName? = some file) :
    Path.slash ∉ file := by
  unfold Path.fileName? at h
  split at h
  · next m hlast =>
    cases h
    have hmem := List.mem_of_getLast? hlast
    rw [Path.components_eq] at hmem
    rcases List.mem_append.1 hmem with hhead | hbody
    · exact absurd hhead (Path.name_notMem_head p _)
    · obtain ⟨piece, hpiece, hname⟩ := List.mem_map.1 hbody
      have hfree := Path.slash_notMem_of_mem_body ((List.mem_filter.1 hpiece).1)
      unfold Path.componentOf at hname
      split at hname
      · cases hname
      · cases hname
        exact hfree
  · cases h

/-- The stem of a file is a part of its name, which has no slash. -/
theorem slash_notMem_of_stem? {p : Path} {n : Name} (h : p.stem? = some n) :
    Path.slash ∉ n := by
  obtain ⟨file, hfile, rfl⟩ := Option.map_eq_some_iff.1 h
  have hslash := slash_notMem_of_fileName? hfile
  intro hmem
  unfold Path.cutName at hmem
  split at hmem
  · exact hslash hmem
  · exact hslash hmem
  · next stem ext _ hsplit =>
    obtain ⟨⟨a, b⟩, hab, hpair⟩ := Option.map_eq_some_iff.1 hsplit
    cases hpair
    exact hslash (List.mem_reverse.1 (Cut.mem_of_splitAt? hab (List.mem_reverse.1 hmem)))

theorem slash_notMem_hex {t : Text} (h : IsHex t) : '/' ∉ t := by
  intro hmem
  obtain ⟨n, hn, heq⟩ := h _ hmem
  have hall : ∀ n < 16, '/' ≠ Hex.digit n := by decide
  exact hall n hn heq

/-- The name of a file's script holds no slash. -/
theorem slash_notMem_ofPath (p : Path) : '/' ∉ (Identity.ofPath p).name := by
  show '/' ∉ (p.stem?.map Utf8.decodeLossy).getD "unknown".toList
  cases hstem : p.stem? with
  | none => decide
  | some n =>
    intro hmem
    exact slash_notMem_of_stem? hstem (Utf8.mem_of_mem_decodeLossy (by decide) hmem)

/-- The name and the discriminator of a script hold no slash. -/
theorem slash_notMem_identity (source : Script.Source) (content : Bytes) :
    '/' ∉ (source.identity (sha256Hex content)).name ∧
      '/' ∉ (source.identity (sha256Hex content)).discriminator := by
  have hhex := fun message => slash_notMem_hex (isHex_sha256Hex message)
  unfold Script.Source.identity
  split
  · exact ⟨slash_notMem_ofPath _, hhex _⟩
  · exact ⟨(by decide : '/' ∉ Identity.inlineName), hhex _⟩
  · exact ⟨(by decide : '/' ∉ Identity.stdinName), hhex _⟩

/-- A marker has a plain name if no part of it holds a slash: the separator is
    neither a dot nor empty. -/
theorem isPlainName_of_slash_notMem {i : Identity} (hname : '/' ∉ i.name)
    (hdiscriminator : '/' ∉ i.discriminator) : Path.IsPlainName (Utf8.encode i.markerName) := by
  have hdash : (0x2D : UInt8) ∈ Utf8.encode i.markerName := by
    have hsep : (0x2D : UInt8) ∈ Utf8.encode Identity.separator := by decide
    rw [Identity.markerName, Utf8.encode_append, Utf8.encode_append]
    exact List.mem_append_left _ (List.mem_append_right _ hsep)
  refine ⟨List.ne_nil_of_mem hdash, ?_, ?_, ?_⟩
  · intro hmem
    obtain ⟨c, hc, hcode⟩ := Utf8.exists_mem_of_mem_encode (by decide) hmem
    have hslash : c = '/' := by
      rw [← Char.ofNat_toNat c, hcode]
      rfl
    subst hslash
    rw [Identity.markerName] at hc
    rcases List.mem_append.1 hc with hc | hc
    · rcases List.mem_append.1 hc with hc | hc
      · exact hname hc
      · exact absurd hc (by decide)
    · exact hdiscriminator hc
  · intro hhere
    exact absurd (hhere ▸ hdash) (by decide)
  · intro hup
    exact absurd (hup ▸ hdash) (by decide)

/-- The marker of a script has a plain name. -/
theorem isPlainName_markerName (source : Script.Source) (content : Bytes) :
    Path.IsPlainName (Utf8.encode (source.identity (sha256Hex content)).markerName) :=
  isPlainName_of_slash_notMem (slash_notMem_identity source content).1
    (slash_notMem_identity source content).2

end Store
end ScriptDeps
