import ScriptDeps.FileSystem.Lookup
import ScriptDeps.Proofs.Text.Cut

/-! # The components of paths

    How components behave when a path is extended by a name and when its last
    name is taken off again.  Both are stated about `components`, since two
    spellings with the same components lead to the same place. -/

namespace ScriptDeps

namespace Path

/-! ## Section 1: Names -/

/-- A name that stands for one component. -/
def IsPlainName (n : Name) : Prop :=
  n ≠ [] ∧ slash ∉ n ∧ n ≠ hereName ∧ n ≠ upName

instance (n : Name) : Decidable (IsPlainName n) :=
  inferInstanceAs (Decidable (_ ∧ _))

theorem pieces_of_notMem {n : Bytes} (h : slash ∉ n) : Cut.pieces (· = slash) n = [n] := by
  refine Cut.pieces_of_forall fun x hx => ?_
  have hne : x ≠ slash := fun he => h (he ▸ hx)
  simpa using hne

/-- The components that pieces stand for. -/
def componentsOf (pieces : List Bytes) : List Component :=
  (pieces.filter fun b => !isIdle b).map componentOf

theorem components_eq (p : Path) : p.components = p.head ++ componentsOf p.body := rfl

theorem componentsOf_append (xs ys : List Bytes) :
    componentsOf (xs ++ ys) = componentsOf xs ++ componentsOf ys := by
  simp [componentsOf]

theorem componentsOf_plainName {n : Name} (h : IsPlainName n) :
    componentsOf [n] = [.name n] := by
  obtain ⟨hne, _, hhere, hup⟩ := h
  simp [componentsOf, isIdle, componentOf, hne, hhere, hup]

/-! ## Section 2: Extending by a name -/

/-- Whatever follows the last slash has no part in how a path starts. -/
theorem head_append_slash (b y : Bytes) (hb : b ≠ []) :
    (⟨b ++ slash :: y⟩ : Path).head = (⟨b⟩ : Path).head := by
  have hpieces := Cut.pieces_append_mark (p := (· = slash)) (x := slash) (by simp) b y
  have hne := Cut.pieces_ne_nil (fun x : UInt8 => decide (x = slash)) b
  unfold head isAbsolute
  rw [hpieces]
  cases b with
  | nil => exact absurd rfl hb
  | cons c b =>
    cases hcut : Cut.pieces (fun x : UInt8 => decide (x = slash)) (c :: b) with
    | nil => exact absurd hcut hne
    | cons a rest => rfl

theorem body_append_slash (b y : Bytes) (hb : b ≠ []) :
    (⟨b ++ slash :: y⟩ : Path).body = (⟨b⟩ : Path).body ++ Cut.pieces (· = slash) y := by
  unfold body
  rw [head_append_slash b y hb]
  dsimp only
  split
  · exact Cut.pieces_append_mark (by simp) b y
  · rw [List.tail_append_of_ne_nil hb]
    exact Cut.pieces_append_mark (by simp) b.tail y

theorem components_append_slash (b y : Bytes) (hb : b ≠ []) :
    (⟨b ++ slash :: y⟩ : Path).components =
      (⟨b⟩ : Path).components ++ componentsOf (Cut.pieces (· = slash) y) := by
  rw [components_eq, components_eq, head_append_slash b y hb, body_append_slash b y hb,
    componentsOf_append, List.append_assoc]

theorem components_slash (y : Bytes) :
    (⟨slash :: y⟩ : Path).components = .root :: componentsOf (Cut.pieces (· = slash) y) := rfl

/-- How an entry of a directory is written. -/
theorem child_cases (p : Path) {n : Name} (h : IsPlainName n) :
    p = ⟨[]⟩ ∧ p.child n = ⟨n⟩ ∨
      (∃ b, p = ⟨b ++ [slash]⟩ ∧ p.child n = ⟨b ++ slash :: n⟩) ∨
      ∃ b, b ≠ [] ∧ p = ⟨b⟩ ∧ p.child n = ⟨b ++ slash :: n⟩ := by
  obtain ⟨hne, hslash, _, _⟩ := h
  obtain ⟨bytes⟩ := p
  have hrelative : (⟨n⟩ : Path).isAbsolute = false := by
    cases n with
    | nil => exact absurd rfl hne
    | cons c n =>
      have hc : c ≠ slash := fun he => hslash (he ▸ List.mem_cons_self ..)
      simpa [isAbsolute] using hc
  unfold child join
  rw [if_neg (by simp [hrelative])]
  by_cases hempty : bytes = []
  · left
    simp [hempty]
  · right
    by_cases hlast : bytes.getLast? = some slash
    · left
      obtain ⟨b, rfl⟩ := List.getLast?_eq_some_iff.1 hlast
      refine ⟨b, rfl, ?_⟩
      rw [if_pos (by simp)]
      simp
    · right
      refine ⟨bytes, hempty, rfl, ?_⟩
      rw [if_neg (by simp [hempty, hlast])]

theorem components_plainName {n : Name} (h : IsPlainName n) :
    (⟨n⟩ : Path).components = [.name n] := by
  have hhead : (⟨n⟩ : Path).head = [] := by
    unfold head isAbsolute
    have hpieces := pieces_of_notMem h.2.1
    cases n with
    | nil => exact absurd rfl h.1
    | cons c n =>
      have hc : c ≠ slash := fun he => h.2.1 (he ▸ List.mem_cons_self ..)
      rw [hpieces, if_neg (by simpa using hc), if_neg (by simpa using h.2.2.1)]
  rw [components_eq, body, hhead]
  show componentsOf (Cut.pieces (· = slash) n) = _
  rw [pieces_of_notMem h.2.1, componentsOf_plainName h]

/-- The components of an entry of a directory. -/
theorem components_child (p : Path) {n : Name} (h : IsPlainName n) :
    (p.child n).components = p.components ++ [.name n] := by
  have hpieces := pieces_of_notMem h.2.1
  have hname := componentsOf_plainName h
  rcases child_cases p h with ⟨rfl, hchild⟩ | ⟨b, rfl, hchild⟩ | ⟨b, hb, rfl, hchild⟩
  · rw [hchild, components_plainName h]
    rfl
  · rw [hchild]
    cases b with
    | nil =>
      rw [List.nil_append, List.nil_append, components_slash, components_slash, hpieces, hname]
      rfl
    | cons c b =>
      rw [components_append_slash _ _ (List.cons_ne_nil c b),
        components_append_slash _ _ (List.cons_ne_nil c b), hpieces, hname, List.append_assoc]
      rfl
  · rw [hchild, components_append_slash b n hb, hpieces, hname]

theorem exists_front_child (p : Path) {n : Name} (h : IsPlainName n) :
    ∃ front, (p.child n).bytes = front ++ n ∧ front.length ≤ p.bytes.length + 1 ∧
      ∀ c ∈ front, c ∈ p.bytes ∨ c = slash := by
  rcases child_cases p h with ⟨rfl, hchild⟩ | ⟨b, rfl, hchild⟩ | ⟨b, _, rfl, hchild⟩
  · exact ⟨[], by rw [hchild]; rfl, by simp, by simp⟩
  · refine ⟨b ++ [slash], by simp [hchild], by simp, ?_⟩
    intro c hc
    exact .inl hc
  · refine ⟨b ++ [slash], by simp [hchild], by simp, ?_⟩
    intro c hc
    simpa using hc

/-- A path that ends in a name does not ask for a directory. -/
theorem steps_of_bytes {p : Path} {front : Bytes} {n : Name} (h : IsPlainName n)
    (hp : p.bytes = front ++ n) : p.steps = p.components := by
  obtain ⟨hne, hslash, hhere, _⟩ := h
  obtain ⟨m, c, rfl⟩ : ∃ m c, n = m ++ [c] :=
    ⟨n.dropLast, n.getLast hne, (List.dropLast_concat_getLast hne).symm⟩
  have hc : c ≠ slash := fun he => hslash (he ▸ List.mem_append_right _ (List.mem_singleton_self _))
  have hlast : p.bytes.getLast? ≠ some slash := by
    rw [hp, ← List.append_assoc, List.getLast?_concat]
    simpa using hc
  have hdot : Cut.before? [slash, dot] p.bytes = none := by
    rw [Cut.before?, Cut.after?, hp, ← List.append_assoc, List.reverse_append]
    by_cases hcd : c = dot
    · -- The name is not a dot alone, so there is a byte before the dot.
      have hm : m ≠ [] := by
        rintro rfl
        exact hhere (by rw [hcd]; rfl)
      obtain ⟨m, d, rfl⟩ : ∃ m' d, m = m' ++ [d] :=
        ⟨m.dropLast, m.getLast hm, (List.dropLast_concat_getLast hm).symm⟩
      have hd : d ≠ slash := fun he => hslash (by simp [he])
      simp [Cut.isPrefixOf?_cons, Ne.symm hd]
    · simp [Cut.isPrefixOf?_cons, Ne.symm hcd]
  unfold steps
  simp [hlast, hdot]

theorem steps_child (p : Path) {n : Name} (h : IsPlainName n) :
    (p.child n).steps = p.components ++ [.name n] := by
  obtain ⟨front, hfront, _⟩ := exists_front_child p h
  rw [steps_of_bytes h hfront, components_child p h]

/-- A name that a directory entry can have. -/
def IsEntryName (n : Name) : Prop :=
  IsPlainName n ∧ 0 ∉ n ∧ n.length ≤ FileSystem.nameLimit

instance (n : Name) : Decidable (IsEntryName n) :=
  inferInstanceAs (Decidable (_ ∧ _))

/-- A path that the system takes. -/
def Fits (p : Path) : Prop :=
  0 ∉ p.bytes ∧ p.bytes ≠ [] ∧ p.bytes.length < FileSystem.pathLimit

instance (p : Path) : Decidable p.Fits :=
  inferInstanceAs (Decidable (_ ∧ _))

/-- A path that the system still takes with `k` bytes more. -/
def HasRoom (p : Path) (k : Nat) : Prop :=
  0 ∉ p.bytes ∧ p.bytes.length + k < FileSystem.pathLimit

instance (p : Path) (k : Nat) : Decidable (p.HasRoom k) :=
  inferInstanceAs (Decidable (_ ∧ _))

theorem HasRoom.mono {p : Path} {k l : Nat} (h : p.HasRoom k) (hle : l ≤ k) : p.HasRoom l :=
  ⟨h.1, Nat.lt_of_le_of_lt (Nat.add_le_add_left hle _) h.2⟩

/-- An entry takes the room of its name and of a slash. -/
theorem HasRoom.child {p : Path} {n : Name} {k : Nat} (h : p.HasRoom (n.length + 1 + k))
    (hn : IsEntryName n) : (p.child n).HasRoom k := by
  obtain ⟨hzero, hlength⟩ := h
  obtain ⟨front, hfront, hle, hmem⟩ := exists_front_child p hn.1
  unfold HasRoom
  rw [hfront, List.length_append]
  refine ⟨?_, by omega⟩
  intro hmem0
  rcases List.mem_append.1 hmem0 with h0 | h0
  · rcases hmem 0 h0 with h0 | h0
    · exact hzero h0
    · exact absurd h0 (by decide)
  · exact hn.2.1 h0

theorem HasRoom.fits_child {p : Path} {n : Name} (h : p.HasRoom (n.length + 1))
    (hn : IsEntryName n) : (p.child n).Fits := by
  obtain ⟨hzero, hlength⟩ := HasRoom.child (k := 0) h hn
  obtain ⟨front, hfront, _⟩ := exists_front_child p hn.1
  refine ⟨hzero, ?_, hlength⟩
  rw [hfront]
  intro hnil
  exact hn.1.1 (List.append_eq_nil_iff.1 hnil).2

theorem getLast?_bytes_child (p : Path) {n : Name} (h : IsPlainName n) :
    (p.child n).bytes.getLast? ≠ some slash := by
  obtain ⟨front, hfront, _⟩ := exists_front_child p h
  rw [hfront, List.getLast?_append, List.getLast?_eq_some_getLast h.1, Option.some_or]
  intro hlast
  exact h.2.1 (Option.some.inj hlast ▸ List.getLast_mem h.1)

/-! ## Section 3: Taking the last name off -/

/-- The bytes in front of the body. -/
def front (p : Path) : Bytes := if p.head.isEmpty then [] else p.bytes.take 1

theorem bytes_eq (p : Path) : p.bytes = p.front ++ Cut.join [slash] p.body := by
  unfold front body
  rw [Cut.join_pieces]
  split
  · rfl
  · rw [← List.drop_one, List.take_append_drop]

theorem slash_notMem_of_mem_body {p : Path} {b : Bytes} (h : b ∈ p.body) : slash ∉ b := by
  intro hmem
  have hne := Cut.eq_false_of_mem_pieces h slash hmem
  simp at hne

theorem componentsOf_pieces_join {bs : List Bytes} (h : ∀ b ∈ bs, slash ∉ b) :
    componentsOf (Cut.pieces (· = slash) (Cut.join [slash] bs)) = componentsOf bs := by
  cases bs with
  | nil => rfl
  | cons b bs => rw [Cut.pieces_join slash b bs h]

theorem eq_slash_of_isAbsolute {p : Path} (h : p.isAbsolute = true) :
    ∃ t, p.bytes = slash :: t := by
  obtain ⟨bytes⟩ := p
  cases bytes with
  | nil => simp [isAbsolute] at h
  | cons c t =>
    have hc : c = slash := by simpa [isAbsolute] using h
    exact ⟨t, by rw [hc]⟩

/-- An empty piece comes first in an absolute path or an empty one. -/
theorem eq_nil_of_pieces {bytes : Bytes} {rest : List Bytes}
    (habs : ¬ (⟨bytes⟩ : Path).isAbsolute = true)
    (h : Cut.pieces (· = slash) bytes = [] :: rest) : bytes = [] ∧ rest = [] := by
  cases bytes with
  | nil => exact ⟨rfl, ((List.cons.inj h).2).symm⟩
  | cons c t =>
    have hc : c ≠ slash := by simpa [isAbsolute] using habs
    rw [Cut.pieces, if_neg (by simpa using hc)] at h
    cases hcut : Cut.pieces (fun x : UInt8 => decide (x = slash)) t with
    | nil => exact absurd hcut (Cut.pieces_ne_nil _ t)
    | cons a more =>
      rw [hcut] at h
      exact absurd (List.cons.inj h).1 (List.cons_ne_nil c a)

/-- After a leading dot comes a slash or nothing. -/
theorem eq_dot_of_head? {bytes : Bytes}
    (h : (Cut.pieces (· = slash) bytes).head? = some hereName) :
    ∃ t rest, bytes = dot :: t ∧ Cut.pieces (· = slash) t = [] :: rest := by
  cases bytes with
  | nil => simp [Cut.pieces, hereName] at h
  | cons c t =>
    rw [Cut.pieces] at h
    by_cases hc : c = slash
    · rw [if_pos (by simpa using hc)] at h
      simp [hereName] at h
    · rw [if_neg (by simpa using hc)] at h
      cases hcut : Cut.pieces (fun x : UInt8 => decide (x = slash)) t with
      | nil => exact absurd hcut (Cut.pieces_ne_nil _ t)
      | cons a rest =>
        rw [hcut] at h
        have hcons : c :: a = hereName := by simpa using h
        obtain ⟨rfl, rfl⟩ := List.cons.inj hcons
        exact ⟨t, rest, rfl, hcut⟩

/-- A dot and then nothing or a slash. -/
theorem head_dot {t : Bytes} {rest : List Bytes} (h : Cut.pieces (· = slash) t = [] :: rest) :
    (⟨dot :: t⟩ : Path).head = [.here] := by
  have hcut : Cut.pieces (· = slash) (dot :: t) = [dot] :: rest := by
    rw [Cut.pieces, h]
    rfl
  unfold head
  rw [hcut]
  rfl

/-- Pieces at the end have no part in that a path starts with a name. -/
theorem head_join {bytes b : Bytes} {bs more : List Bytes}
    (habs : ¬ (⟨bytes⟩ : Path).isAbsolute = true)
    (hhere : ¬ (Cut.pieces (· = slash) bytes).head? = some hereName)
    (hbody : Cut.pieces (· = slash) bytes = (b :: bs) ++ more) (hfree : ∀ a ∈ b :: bs, slash ∉ a) :
    (⟨Cut.join [slash] (b :: bs)⟩ : Path).head = [] := by
  have hjoin := Cut.pieces_join slash b bs hfree
  have hrelative : ¬ (⟨Cut.join [slash] (b :: bs)⟩ : Path).isAbsolute = true := by
    intro hslash
    obtain ⟨x, hx⟩ := eq_slash_of_isAbsolute hslash
    dsimp only at hx
    rw [hx] at hjoin
    -- A slash in front makes the first piece empty, so the path was empty.
    have hb : b = [] := ((List.cons.inj hjoin).1).symm
    rw [hb] at hbody hx
    have hnil := (List.append_eq_nil_iff.1 (eq_nil_of_pieces habs hbody).2).1
    rw [hnil] at hx
    simp [Cut.join] at hx
  unfold head
  rw [if_neg hrelative, hjoin, if_neg]
  simpa [hbody] using hhere

/-- After a dot the first piece is empty, and so it is when pieces at the end are left out. -/
theorem components_dot_join {t : Bytes} {rest bs more : List Bytes}
    (ht : Cut.pieces (· = slash) t = [] :: rest) (hbody : Cut.pieces (· = slash) t = bs ++ more)
    (hfree : ∀ b ∈ bs, slash ∉ b) :
    (⟨dot :: Cut.join [slash] bs⟩ : Path).components = .here :: componentsOf bs := by
  have hfirst : ∃ rest, Cut.pieces (· = slash) (Cut.join [slash] bs) = [] :: rest := by
    cases bs with
    | nil => exact ⟨[], rfl⟩
    | cons b bs =>
      have hb : b = [] := by
        rw [ht] at hbody
        exact ((List.cons.inj hbody).1).symm
      rw [Cut.pieces_join slash b bs hfree, hb]
      exact ⟨bs, rfl⟩
  obtain ⟨rest, hrest⟩ := hfirst
  rw [components_eq, body, head_dot hrest]
  exact congrArg ([Component.here] ++ ·) (componentsOf_pieces_join hfree)

/-- What has no head in front of its pieces has none in front of the first of them. -/
theorem components_name_join {bytes : Bytes} {bs more : List Bytes}
    (habs : ¬ (⟨bytes⟩ : Path).isAbsolute = true)
    (hhere : ¬ (Cut.pieces (· = slash) bytes).head? = some hereName)
    (hbody : Cut.pieces (· = slash) bytes = bs ++ more) (hfree : ∀ b ∈ bs, slash ∉ b) :
    (⟨Cut.join [slash] bs⟩ : Path).components = componentsOf bs := by
  cases bs with
  | nil => rfl
  | cons b bs =>
    rw [components_eq, body, head_join habs hhere hbody hfree]
    exact componentsOf_pieces_join hfree

/-- A path keeps its head when pieces at its end are left out. -/
theorem components_front {p : Path} {bs more : List Bytes} (h : p.body = bs ++ more) :
    (⟨p.front ++ Cut.join [slash] bs⟩ : Path).components = p.head ++ componentsOf bs := by
  have hfree : ∀ b ∈ bs, slash ∉ b := fun b hb =>
    slash_notMem_of_mem_body (h ▸ List.mem_append_left _ hb)
  obtain ⟨bytes⟩ := p
  by_cases habs : (⟨bytes⟩ : Path).isAbsolute = true
  · -- The root: a slash stands in front of the pieces.
    obtain ⟨t, ht⟩ := eq_slash_of_isAbsolute habs
    dsimp only at ht
    subst ht
    show (⟨slash :: Cut.join [slash] bs⟩ : Path).components = _
    rw [components_slash, componentsOf_pieces_join hfree]
    rfl
  by_cases hhere : (Cut.pieces (· = slash) bytes).head? = some hereName
  · -- A dot: the pieces are those of what follows it.
    obtain ⟨t, rest, rfl, ht⟩ := eq_dot_of_head? hhere
    have hhead := head_dot ht
    have hbody : Cut.pieces (· = slash) t = bs ++ more := by
      rw [← h, body, hhead]
      rfl
    have hfront : (⟨dot :: t⟩ : Path).front = [dot] := by rw [front, hhead]; rfl
    rw [hfront, hhead, List.singleton_append, List.singleton_append]
    exact components_dot_join ht hbody hfree
  · -- A name, or nothing at all: there is no head.
    have hhead : (⟨bytes⟩ : Path).head = [] := by
      unfold head
      rw [if_neg habs, if_neg hhere]
    have hfront : (⟨bytes⟩ : Path).front = [] := by rw [front, hhead]; rfl
    have hbody : Cut.pieces (· = slash) bytes = bs ++ more := by
      rw [← h, body, hhead]
      rfl
    rw [hfront, hhead, List.nil_append, List.nil_append]
    exact components_name_join habs hhere hbody hfree

theorem componentsOf_of_idle {bs : List Bytes} (h : ∀ b ∈ bs, isIdle b = true) :
    componentsOf bs = [] := by
  have hfilter : bs.filter (fun b => !isIdle b) = [] := by
    rw [List.filter_eq_nil_iff]
    intro b hb
    simp [h b hb]
  rw [componentsOf, hfilter]
  rfl

theorem name_notMem_head (p : Path) (n : Name) : .name n ∉ p.head := by
  unfold head
  split
  · simp
  · split <;> simp

/-- The last of the pieces that are left at the end leads somewhere. -/
theorem last_of_trimEnd {pieces before : List Bytes} {last : Bytes}
    (h : (Cut.trimEnd isIdle pieces).reverse = last :: before) : isIdle last = false := by
  have hdrop : pieces.reverse.dropWhile isIdle = last :: before := by
    rw [← h, Cut.trimEnd, List.reverse_reverse]
  have hhead := List.head?_dropWhile_not isIdle pieces.reverse
  rw [hdrop] at hhead
  simpa using hhead

/-- Whoever takes the last name off finds a beginning of the path, with the
    components before that name. -/
theorem parent?_eq {p : Path} {cs : List Component} {n : Name}
    (h : p.components = cs ++ [.name n]) :
    ∃ q, p.parent? = some q ∧ q.components = cs ∧ q.bytes <+: p.bytes := by
  obtain ⟨tail, hbody, htail⟩ := Cut.trimEnd_append_dropped isIdle p.body
  rw [components_eq] at h
  cases hrev : (Cut.trimEnd isIdle p.body).reverse with
  | nil =>
    -- Without a piece that leads somewhere the last component is no name.
    have hnil : Cut.trimEnd isIdle p.body = [] := List.reverse_eq_nil_iff.1 hrev
    rw [hbody, hnil, List.nil_append, componentsOf_of_idle htail, List.append_nil] at h
    exact absurd (h ▸ List.mem_append_right cs (List.mem_singleton_self _))
      (name_notMem_head p n)
  | cons last before =>
    -- The last piece is the name; what is idle before it goes with it.
    have hlast := last_of_trimEnd hrev
    have htrim : Cut.trimEnd isIdle p.body = before.reverse ++ [last] := by
      rw [← List.reverse_reverse (Cut.trimEnd isIdle p.body), hrev, List.reverse_cons]
    obtain ⟨tail', hbefore, htail'⟩ := Cut.trimEnd_append_dropped isIdle before.reverse
    have hsplit : p.body =
        Cut.trimEnd isIdle before.reverse ++ (tail' ++ ([last] ++ tail)) := by
      rw [hbody, htrim, ← List.append_assoc _ tail', ← hbefore, List.append_assoc]
    have hcs : p.head ++ componentsOf (Cut.trimEnd isIdle before.reverse) = cs := by
      rw [hsplit, componentsOf_append, componentsOf_append, componentsOf_append,
        componentsOf_of_idle htail', componentsOf_of_idle htail, List.nil_append,
        List.append_nil, ← List.append_assoc] at h
      have hone : (componentsOf [last]).length = 1 := by simp [componentsOf, hlast]
      exact (List.append_inj' h hone).1
    refine ⟨⟨p.front ++ Cut.join [slash] (Cut.trimEnd isIdle before.reverse)⟩, ?_, ?_, ?_⟩
    · unfold parent?
      dsimp only
      rw [hrev]
      rfl
    · rw [components_front hsplit, hcs]
    · rw [bytes_eq p, hsplit, List.prefix_append_right_inj]
      exact Cut.join_prefix [slash] _ _

theorem root_notMem_componentsOf (bs : List Bytes) : .root ∉ componentsOf bs := by
  intro hmem
  obtain ⟨piece, _, hpiece⟩ := List.mem_map.1 hmem
  unfold componentOf at hpiece
  split at hpiece <;> cases hpiece

/-- Nothing is before the root. -/
theorem parent?_root {p : Path} (h : p.components = [.root]) : p.parent? = none := by
  rw [components_eq] at h
  rcases List.append_eq_cons_iff.1 h with ⟨_, hbody⟩ | ⟨rest, hhead, hrest⟩
  · exact absurd (hbody ▸ List.mem_cons_self ..) (root_notMem_componentsOf p.body)
  · obtain ⟨rfl, hnone⟩ := List.append_eq_nil_iff.1 hrest.symm
    have hidle : ∀ b ∈ p.body, isIdle b = true := by
      have hfilter := List.filter_eq_nil_iff.1 (List.map_eq_nil_iff.1 hnone)
      exact fun b hb => by simpa using hfilter b hb
    have htrim : Cut.trimEnd isIdle p.body = [] := by
      rw [Cut.trimEnd, ← List.append_nil p.body.reverse,
        List.dropWhile_append_of_pos fun b hb => hidle b (List.mem_reverse.1 hb)]
      rfl
    unfold parent?
    dsimp only
    rw [htrim, hhead]
    rfl

/-! ## Section 4: Lengths -/

/-- A byte adds at most one piece that is not empty. -/
theorem length_filter_pieces_le (bs : Bytes) :
    ((Cut.pieces (fun x : UInt8 => decide (x = slash)) bs).filter fun b => !b.isEmpty).length ≤
      bs.length := by
  induction bs with
  | nil => exact Nat.le_refl _
  | cons c bs ih =>
    rw [Cut.pieces]
    by_cases hc : c = slash
    · rw [if_pos (by simpa using hc), List.filter_cons_of_neg (by simp), List.length_cons]
      omega
    · rw [if_neg (by simpa using hc)]
      cases hcut : Cut.pieces (fun x : UInt8 => decide (x = slash)) bs with
      | nil => simp
      | cons a rest =>
        -- The byte goes to the first piece, which counts from now on if it did not before.
        rw [hcut] at ih
        rw [List.filter_cons_of_pos (by simp), List.length_cons, List.length_cons]
        have hle : (rest.filter fun b => !b.isEmpty).length ≤ bs.length := by
          rw [List.filter_cons] at ih
          split at ih
          · rw [List.length_cons] at ih
            omega
          · exact ih
        omega

/-- An empty piece stands for nothing. -/
theorem length_componentsOf_le_filter (ps : List Bytes) :
    (componentsOf ps).length ≤ (ps.filter fun b => !b.isEmpty).length := by
  rw [componentsOf, List.length_map, ← List.countP_eq_length_filter,
    ← List.countP_eq_length_filter]
  refine List.countP_mono_left fun b _ hb => ?_
  simp [isIdle] at hb ⊢
  exact hb.1

theorem length_componentsOf_pieces_le (bs : Bytes) :
    (componentsOf (Cut.pieces (· = slash) bs)).length ≤ bs.length :=
  Nat.le_trans (length_componentsOf_le_filter _) (length_filter_pieces_le bs)

/-- A path has no more components than bytes. -/
theorem length_components_le (p : Path) : p.components.length ≤ p.bytes.length := by
  obtain ⟨bytes⟩ := p
  rw [components_eq, List.length_append]
  by_cases hhead : (⟨bytes⟩ : Path).head = []
  · rw [body, hhead, List.length_nil, Nat.zero_add]
    exact length_componentsOf_pieces_le bytes
  · have hbytes : bytes ≠ [] := by
      rintro rfl
      exact hhead rfl
    have hpos := List.length_pos_iff.2 hbytes
    have hone : (⟨bytes⟩ : Path).head.length ≤ 1 := by
      unfold head
      split
      · exact Nat.le_refl _
      · split <;> simp
    have htail := length_componentsOf_pieces_le bytes.tail
    rw [body, if_neg (by simpa using hhead)]
    rw [List.length_tail] at htail
    dsimp only
    omega

/-! ## Section 5: Written with nothing but components -/

/-- Components as they are written, with a slash between each two. -/
def spelled (cs : List Component) : Bytes := Cut.join [slash] (cs.map fun c => c.path.bytes)

/-- A component that is written with something, and without a slash. -/
def Component.IsWord (c : Component) : Prop := c.path.bytes ≠ [] ∧ slash ∉ c.path.bytes

/-- What has to be written between a path and what goes below it. -/
def seam (p : Path) : Bytes :=
  if p.bytes = [] ∨ p.bytes.getLast? = some slash then [] else [slash]

theorem bytes_join (p : Path) {q : Path} (h : q.isAbsolute = false) :
    (p.join q).bytes = p.bytes ++ (p.seam ++ q.bytes) := by
  unfold join seam
  rw [if_neg (by simp [h])]
  by_cases hend : p.bytes = [] ∨ p.bytes.getLast? = some slash
  · rw [if_pos hend, if_pos (by simpa using hend)]
    rfl
  · rw [if_neg hend, if_neg (by simpa using hend)]
    rfl

theorem Component.IsWord.isAbsolute {c : Component} (h : c.IsWord) :
    c.path.isAbsolute = false := by
  cases hroot : c.path.isAbsolute with
  | false => rfl
  | true =>
    obtain ⟨t, ht⟩ := eq_slash_of_isAbsolute hroot
    exact absurd (ht ▸ List.mem_cons_self ..) h.2

/-- Behind a word stands a slash before the next one. -/
theorem Component.IsWord.seam_join {c : Component} (h : c.IsWord) (p : Path) :
    (p.join c.path).seam = [slash] := by
  unfold seam
  rw [bytes_join p h.isAbsolute, if_neg]
  intro hend
  rcases hend with hnil | hlast
  · exact h.1 (List.append_eq_nil_iff.1 (List.append_eq_nil_iff.1 hnil).2).2
  · rw [← List.append_assoc, List.getLast?_append, List.getLast?_eq_some_getLast h.1] at hlast
    exact h.2 (Option.some.inj hlast ▸ List.getLast_mem h.1)

theorem bytes_foldl_join {cs : List Component} (h : ∀ c ∈ cs, c.IsWord) (hne : cs ≠ [])
    (p : Path) :
    (cs.foldl (fun q c => q.join c.path) p).bytes = p.bytes ++ (p.seam ++ spelled cs) := by
  induction cs generalizing p with
  | nil => exact absurd rfl hne
  | cons c cs ih =>
    have hc := h c (List.mem_cons_self ..)
    have hrest : ∀ d ∈ cs, d.IsWord := fun d hd => h d (List.mem_cons_of_mem _ hd)
    rw [List.foldl_cons]
    by_cases hlast : cs = []
    · subst hlast
      exact bytes_join p hc.isAbsolute
    · rw [ih hrest hlast, hc.seam_join, bytes_join p hc.isAbsolute]
      unfold spelled
      rw [List.map_cons, Cut.join_cons _ _ (by simpa using hlast)]
      simp only [List.append_assoc]

theorem isWord_of_mem_componentsOf {bs : List Bytes} (h : ∀ b ∈ bs, slash ∉ b) {c : Component}
    (hc : c ∈ componentsOf bs) : c.IsWord := by
  obtain ⟨b, hb, rfl⟩ := List.mem_map.1 hc
  obtain ⟨hb, hidle⟩ := List.mem_filter.1 hb
  have hne : b ≠ [] := by
    intro hnil
    simp [hnil, isIdle] at hidle
  unfold componentOf
  split
  · exact ⟨by decide, by decide⟩
  · exact ⟨hne, h b hb⟩

/-- The root is the first component of a path or none of them; all others are words. -/
theorem components_cases (p : Path) :
    (p.isAbsolute = true ∧ ∃ cs, p.components = .root :: cs ∧ ∀ c ∈ cs, c.IsWord) ∨
      (p.isAbsolute = false ∧ ∀ c ∈ p.components, c.IsWord) := by
  have hbody : ∀ c ∈ componentsOf p.body, c.IsWord := fun c hc =>
    isWord_of_mem_componentsOf (fun _ hb => slash_notMem_of_mem_body hb) hc
  rw [components_eq]
  unfold head
  by_cases hroot : p.isAbsolute = true
  · left
    exact ⟨hroot, componentsOf p.body, by rw [if_pos hroot]; rfl, hbody⟩
  · right
    rw [if_neg hroot]
    refine ⟨by simpa using hroot, ?_⟩
    intro c hc
    rcases List.mem_append.1 hc with hhead | hrest
    · split at hhead
      · rw [List.mem_singleton.1 hhead]
        exact ⟨by decide, by decide⟩
      · cases hhead
    · exact hbody c hrest

theorem tidy_of_root {p : Path} {cs : List Component} (h : p.components = .root :: cs) :
    p.tidy = ⟨slash :: spelled cs⟩ := by
  rcases components_cases p with ⟨_, cs', hcs', hwords⟩ | ⟨_, hwords⟩
  · obtain rfl : cs' = cs := by
      rw [hcs'] at h
      exact (List.cons.inj h).2
    unfold tidy
    rw [h, List.foldl_cons]
    by_cases hne : cs' = []
    · subst hne
      rfl
    · exact congrArg Path.mk (bytes_foldl_join hwords hne _)
  · exact absurd (by decide) (hwords .root (h ▸ List.mem_cons_self ..)).2

theorem tidy_of_words {p : Path} (h : ∀ c ∈ p.components, c.IsWord) :
    p.tidy = ⟨spelled p.components⟩ := by
  unfold tidy
  by_cases hne : p.components = []
  · rw [hne]
    rfl
  · exact congrArg Path.mk (bytes_foldl_join h hne _)

theorem isAbsolute_spelled {cs : List Component} (h : ∀ c ∈ cs, c.IsWord) :
    (⟨spelled cs⟩ : Path).isAbsolute = false := by
  cases cs with
  | nil => rfl
  | cons c cs =>
    obtain ⟨hne, hslash⟩ := h c (List.mem_cons_self ..)
    have hfirst : ∃ tail, spelled (c :: cs) = c.path.bytes ++ tail := by
      cases cs with
      | nil => exact ⟨[], (List.append_nil _).symm⟩
      | cons d cs => exact ⟨_, List.append_assoc ..⟩
    obtain ⟨tail, htail⟩ := hfirst
    obtain ⟨b, bs, hb⟩ := List.exists_cons_of_ne_nil hne
    rw [hb] at hslash
    have hb' : b ≠ slash := fun he => hslash (he ▸ List.mem_cons_self ..)
    unfold isAbsolute
    rw [htail, hb]
    simpa using hb'

end Path
end ScriptDeps
