import ScriptDeps.Proofs.Clean.Pass

/-! # The plan of a clean-up

    A plan holds what the arguments ask for, each target once, and perhaps
    the unused items at the end.  A clean-up carries its plan out
    (`run_clean`), and what it reports sums up to what the cache loses
    (`sum_reported`). -/

namespace ScriptDeps

open FileSystem

namespace Tool

variable {top : Location} {fs : FileSystem} {h : Host} {m : Machine} {args : List Text}

/-! ## Section 1: Targets of a plan -/

namespace Target

variable {x y : Target} {xs ys : List Target}

theorem same_refl (x : Target) : same x x = true := by
  cases x <;> simp [same, Path.same]

theorem mem_of_mem_adds (h : x ∈ xs.foldl add ys) : x ∈ ys ∨ x ∈ xs := by
  induction xs generalizing ys with
  | nil => exact .inl h
  | cons z zs ih =>
    rcases ih h with hadd | hzs
    · unfold add at hadd
      split at hadd
      · exact .inl hadd
      · rcases List.mem_append.1 hadd with hys | hz
        · exact .inl hys
        · exact .inr (List.mem_singleton.1 hz ▸ List.mem_cons_self ..)
    · exact .inr (List.mem_cons_of_mem _ hzs)

theorem mem_add_of_mem (z : Target) (h : x ∈ ys) : x ∈ add ys z := by
  unfold add
  split
  · exact h
  · exact List.mem_append_left _ h

theorem mem_adds_of_mem (xs : List Target) (h : x ∈ ys) : x ∈ xs.foldl add ys := by
  induction xs generalizing ys with
  | nil => exact h
  | cons z zs ih => exact ih (mem_add_of_mem z h)

/-- A target is added unless there is one like it. -/
theorem exists_same_add (x : Target) (ys : List Target) : ∃ y ∈ add ys x, same x y = true := by
  unfold add
  split
  · next hany => exact List.any_eq_true.1 hany
  · exact ⟨x, List.mem_append_right _ (List.mem_singleton_self x), same_refl x⟩

/-- Of every target that is added there is one like it. -/
theorem exists_same_of_mem (h : x ∈ xs) (ys : List Target) :
    ∃ y ∈ xs.foldl add ys, same x y = true := by
  obtain ⟨front, back, rfl⟩ := List.append_of_mem h
  rw [List.foldl_append, List.foldl_cons]
  obtain ⟨y, hy, hsame⟩ := exists_same_add x (front.foldl add ys)
  exact ⟨y, mem_adds_of_mem back hy, hsame⟩

/-- What the arguments ask for, in order; without any, the markers of scripts
    without a file. -/
def requested (args : List Text) (endUnused : Bool) : List Target :=
  let targets := if args.isEmpty then [ephemeral] else args.map ofText
  if endUnused then targets.filter (· != unused) else targets

theorem ofText_eq_all {t : Text} : ofText t = all ↔ t = "all".toList := by
  unfold ofText
  split
  · next ht => subst ht; decide
  · split
    · next ht => subst ht; decide
    · split
      · next ht => simp [ht]
      · next ht => simpa using ht

theorem ofText_eq_ephemeral {t : Text} : ofText t = ephemeral ↔ t = "ephemeral".toList := by
  unfold ofText
  split
  · next ht => subst ht; decide
  · split
    · next ht => simp [ht]
    · next ht =>
      split
      · simpa using ht
      · simpa using ht

theorem resolves_ofText {t : Text} : (ofText t).resolves = true ↔ t ≠ [] := by
  unfold ofText
  split
  · next ht => subst ht; decide
  · split
    · next ht => subst ht; decide
    · split
      · next ht => subst ht; decide
      · cases t with
        | nil => decide
        | cons c t =>
          have hne : Utf8.encode (c :: t) ≠ [] := fun hnil =>
            List.cons_ne_nil c t (Utf8.encode_injective (t := []) hnil)
          simpa [resolves, Path.ofText] using hne

theorem plan_of_mem_all (hall : "all".toList ∈ args) (endUnused : Bool) :
    plan args endUnused = [all] := by
  have hmem : all ∈ args.map ofText := List.mem_map.2 ⟨_, hall, ofText_eq_all.2 rfl⟩
  unfold plan
  rw [if_pos (List.contains_iff_mem.2 hmem)]

theorem plan_eq (hall : "all".toList ∉ args) (endUnused : Bool) :
    plan args endUnused =
      (requested args endUnused).foldl add [] ++ if endUnused then [unused] else [] := by
  have hmem : all ∉ args.map ofText := fun hmem => by
    obtain ⟨a, ha, hof⟩ := List.mem_map.1 hmem
    exact hall (ofText_eq_all.1 hof ▸ ha)
  unfold plan requested
  rw [if_neg (mt List.contains_iff_mem.1 hmem)]
  cases args <;> rfl

theorem mem_requested {endUnused : Bool} :
    x ∈ requested args endUnused ↔
      ((∃ a ∈ args, ofText a = x) ∨ args = [] ∧ x = ephemeral) ∧
        (endUnused = true → x ≠ unused) := by
  have htargets : x ∈ (if args.isEmpty then [ephemeral] else args.map ofText) ↔
      (∃ a ∈ args, ofText a = x) ∨ args = [] ∧ x = ephemeral := by
    cases args with
    | nil => simp
    | cons a as =>
      rw [if_neg (by simp), List.mem_map]
      simp
  unfold requested
  cases endUnused with
  | false => simpa using htargets
  | true =>
    dsimp only
    rw [if_pos rfl, List.mem_filter, htargets]
    simp

/-- A plan asks for what the arguments ask for, and perhaps for what is
    unused. -/
theorem mem_plan (hall : "all".toList ∉ args) {endUnused : Bool} (hx : x ∈ plan args endUnused) :
    (∃ a ∈ args, ofText a = x) ∨ x = ephemeral ∨ x = unused := by
  rw [plan_eq hall] at hx
  rcases List.mem_append.1 hx with hx | hx
  · have hmem := (mem_of_mem_adds hx).resolve_left List.not_mem_nil
    rcases (mem_requested.1 hmem).1 with harg | ⟨_, rfl⟩
    · exact .inl harg
    · exact .inr (.inl rfl)
  · split at hx
    · exact .inr (.inr (List.mem_singleton.1 hx))
    · exact absurd hx List.not_mem_nil

/-- A plan asks for the whole cache only where an argument does. -/
theorem ne_all_of_mem_plan (hall : "all".toList ∉ args) {endUnused : Bool}
    (hx : x ∈ plan args endUnused) : x ≠ all := by
  rcases mem_plan hall hx with ⟨a, ha, rfl⟩ | rfl | rfl
  · exact fun heq => hall (ofText_eq_all.1 heq ▸ ha)
  · simp
  · simp

/-- A plan names a path without an absolute form only where an argument does. -/
theorem resolves_of_mem_plan (hall : "all".toList ∉ args) (hnamed : [] ∉ args) {endUnused : Bool}
    (hx : x ∈ plan args endUnused) : x.resolves = true := by
  rcases mem_plan hall hx with ⟨a, ha, rfl⟩ | rfl | rfl
  · exact resolves_ofText.2 fun hnil => hnamed (hnil ▸ ha)
  · rfl
  · rfl

/-- Every target of such a plan can be carried out item by item. -/
theorem cleanable_plan (hall : "all".toList ∉ args) (hnamed : [] ∉ args) (endUnused : Bool) :
    ∀ x ∈ plan args endUnused, x ≠ all ∧ x.resolves = true :=
  fun _ hx => ⟨ne_all_of_mem_plan hall hx, resolves_of_mem_plan hall hnamed hx⟩

theorem nodup_adds (h : ys.Nodup) : (xs.foldl add ys).Nodup := by
  induction xs generalizing ys with
  | nil => exact h
  | cons z zs ih =>
    refine ih ?_
    unfold add
    split
    · exact h
    · next hnone =>
      refine List.nodup_append.2 ⟨h, List.pairwise_singleton _ z, fun y hy w hw => ?_⟩
      rintro rfl
      rw [List.mem_singleton.1 hw] at hy
      exact hnone (List.any_eq_true.2 ⟨z, hy, same_refl z⟩)

/-- A plan asks for nothing twice. -/
theorem nodup_plan (args : List Text) (endUnused : Bool) : (plan args endUnused).Nodup := by
  by_cases hall : "all".toList ∈ args
  · rw [plan_of_mem_all hall]
    exact List.pairwise_singleton ..
  · rw [plan_eq hall]
    refine List.nodup_append.2 ⟨nodup_adds List.nodup_nil, ?_, fun x hx y hy => ?_⟩
    · split
      · exact List.pairwise_singleton ..
      · exact List.nodup_nil
    · rintro rfl
      split at hy
      · next hend =>
        have hmem := (mem_of_mem_adds hx).resolve_left List.not_mem_nil
        exact (mem_requested.1 hmem).2 hend (List.mem_singleton.1 hy)
      · exact List.not_mem_nil hy

end Target

/-! ## Section 2: Carrying a plan out -/

/-- The clean-up of the store that settings choose. -/
def cleaner (e : Environment) (s : Settings) (dryRun : Bool) : Clean := ⟨store e s, dryRun⟩

variable {e : Environment} {s : Settings} {dryRun keepUnused : Bool} {c : Clean} {cwd : Path}

theorem run_clean (hc : (store e s).IsCache h.cwd top m.files) (dryRun : Bool)
    (hxs : ∀ x ∈ Target.plan args !keepUnused, x ≠ .all ∧ x.resolves = true) :
    (clean e s args dryRun keepUnused).run h m =
      (.ok (),
        ⟨(cleaner e s dryRun).left e.cwd top m.files (Target.plan args !keepUnused),
          m.seen ++ ((cleaner e s dryRun).notices e.cwd top m.files
              (Target.plan args !keepUnused)).map (fun n => .said ((cleaner e s dryRun).line n)) ++
            ((cleaner e s dryRun).summary (((cleaner e s dryRun).notices e.cwd top m.files
              (Target.plan args !keepUnused)).foldl Clean.count {})).map .said⟩) := by
  have hrun := Clean.run_targets (c := cleaner e s dryRun) hc e.cwd {} hxs
  unfold clean
  show Action.run ((cleaner e s dryRun).targets e.cwd {} (Target.plan args !keepUnused) >>= fun t =>
    Clean.sayAll ((cleaner e s dryRun).summary t)) h m = _
  rw [Action.run_bind_ok hrun, Clean.run_sayAll]

/-- A clean-up ends at the first path without an absolute form. -/
theorem run_clean_error (hc : (store e s).IsCache h.cwd top m.files) (dryRun : Bool)
    {xs ys : List Target} {p : Path}
    (hplan : Target.plan args (!keepUnused) = xs ++ .script p :: ys)
    (hxs : ∀ x ∈ xs, x ≠ .all ∧ x.resolves = true) (hp : (Target.script p).resolves = false) :
    (clean e s args dryRun keepUnused).run h m =
      (.error (.io ("resolving " ++ p.display) .emptyPath),
        ⟨(cleaner e s dryRun).left e.cwd top m.files xs,
          m.seen ++ ((cleaner e s dryRun).notices e.cwd top m.files xs).map
            fun n => .said ((cleaner e s dryRun).line n)⟩) := by
  have hrun := Clean.run_targets_append (c := cleaner e s dryRun) hc e.cwd {} hxs (.script p :: ys)
  unfold clean
  show Action.run ((cleaner e s dryRun).targets e.cwd {} (Target.plan args !keepUnused) >>= fun t =>
    Clean.sayAll ((cleaner e s dryRun).summary t)) h m = _
  refine Action.run_bind_error ?_
  rw [hplan, hrun, Clean.targets]
  exact Action.run_bind_error (Clean.run_target_error hp h _)

/-! ## Section 3: What is reported -/

/-- The path that a notice reports as removed, with its size. -/
def Notice.removed? : Notice → Option (Path × Nat)
  | .removed p size => some (p, size)
  | .missing _ => none

/-- The paths that notices report as removed, with their sizes. -/
def reported (ns : List Notice) : List (Path × Nat) := ns.filterMap Notice.removed?

theorem reported_append (ns ms : List Notice) : reported (ns ++ ms) = reported ns ++ reported ms :=
  List.filterMap_append

theorem foldl_count (ns : List Notice) (t : Tally) :
    ns.foldl Clean.count t =
      ⟨t.items + (reported ns).length, t.bytes + ((reported ns).map (·.2)).sum⟩ := by
  induction ns generalizing t with
  | nil => rfl
  | cons n ns ih =>
    rw [List.foldl_cons, ih]
    cases n with
    | removed p size =>
      show (⟨t.items + 1 + _, t.bytes + size + _⟩ : Tally) =
        ⟨t.items + (_ + 1), t.bytes + (size + _)⟩
      rw [Nat.add_right_comm, Nat.add_assoc, Nat.add_assoc]
      rfl
    | missing p => rfl

/-- An item as it is reported. -/
def reportOf (s : Store) (top : Location) (fs : FileSystem) (i : Item) : Path × Nat :=
  (i.path s, fs.bytesAt (i.loc top))

theorem reported_map_notice (s : Store) (top : Location) (fs : FileSystem) (is : List Item) :
    reported (is.map (Clean.notice s top fs)) = is.map (reportOf s top fs) := by
  rw [reported, List.filterMap_map]
  exact congrFun List.filterMap_eq_map is

theorem reported_notices (s : Store) (x : Target) :
    reported (x.notices s cwd top fs) = (x.struck cwd top fs).map (reportOf s top fs) := by
  by_cases hmissing : x.struck cwd top fs = [] ∧ ∃ p, x = .script p
  · obtain ⟨hnil, p, rfl⟩ := hmissing
    rw [Target.notices_of_missing hnil, hnil]
    rfl
  · rw [Target.notices_of_struck, reported_map_notice]
    by_cases hnil : x.struck cwd top fs = []
    · exact .inr fun p hp => hmissing ⟨hnil, p, hp⟩
    · exact .inl hnil

/-- Items that are taken away leave the rest of the cache. -/
theorem sum_bytesAt (fs : FileSystem) (top : Location) {is : List Item} (hnodup : is.Nodup) :
    (is.map fun i => fs.bytesAt (i.loc top)).sum +
      (fs.without (is.map (Item.loc top))).bytesAt top = fs.bytesAt top := by
  induction is generalizing fs with
  | nil => simp
  | cons i is ih =>
    obtain ⟨hi, hnodup⟩ := List.nodup_cons.1 hnodup
    have hsizes : is.map (fun j => (fs.without [i.loc top]).bytesAt (j.loc top)) =
        is.map fun j => fs.bytesAt (j.loc top) := by
      refine List.map_congr_left fun j hj => bytesAt_without_of_apart fun l hl => ?_
      have hji : j ∉ [i] := fun hji => hi (List.mem_singleton.1 hji ▸ hj)
      exact Item.isStruck_below_of_not hji hl
    have hrest := ih (fs.without [i.loc top]) hnodup
    rw [hsizes, without_without, List.singleton_append] at hrest
    have hfirst : fs.bytesAt top = (fs.without [i.loc top]).bytesAt top + fs.bytesAt (i.loc top) :=
      bytesAt_without fs (List.prefix_append ..)
    rw [List.map_cons, List.map_cons, List.sum_cons]
    omega

/-- What a clean-up reports is what the cache loses. -/
theorem sum_reported (hreal : c.dryRun = false) (htree : fs.IsTree) (cwd : Path) (top : Location)
    (xs : List Target) :
    ((reported (c.notices cwd top fs xs)).map (·.2)).sum + (c.left cwd top fs xs).bytesAt top =
      fs.bytesAt top := by
  induction xs generalizing fs with
  | nil => exact Nat.zero_add _
  | cons x xs ih =>
    have hfirst := sum_bytesAt fs top (Target.nodup_struck htree cwd top x)
    have hrest := ih (htree.without ((x.struck cwd top fs).map (Item.loc top)))
    rw [Clean.notices, Clean.left, Clean.keep_of_real hreal, reported_append, reported_notices,
      List.map_append, List.sum_append, List.map_map]
    have hsizes : (fun p : Path × Nat => p.2) ∘ reportOf c.store top fs =
        fun i => fs.bytesAt (i.loc top) := rfl
    rw [hsizes]
    omega

end Tool
end ScriptDeps
