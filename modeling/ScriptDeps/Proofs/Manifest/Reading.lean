import ScriptDeps.Proofs.Manifest.Literal
import ScriptDeps.Proofs.Text.Cut

/-! # Reading a manifest back

    A reader for the manifests that `Manifest.render` writes: the fixed frame,
    and between its parts one package and one product for each entry.  The
    main result `entries?_ofDependencies` says that the reader finds exactly
    the entries of the dependencies, in order.  So the text of a manifest says
    neither more nor less than its entries do, and no content of a dependency
    can pass for a part of the frame. -/

namespace ScriptDeps
namespace Manifest

/-! ## Section 1: The reader -/

def requirement? (t : Text) : Option (Requirement × Text) :=
  match Cut.after? "from: ".toList t with
  | some rest => (literal? rest).map fun (v, r) => (.atLeast v, r)
  | none =>
      match Cut.after? "revision: ".toList t with
      | some rest => (literal? rest).map fun (v, r) => (.revision v, r)
      | none => (Cut.after? unboundedRange t).map fun r => (.unbounded, r)

/-- A `.package(…)` and what follows it. -/
def location? (t : Text) : Option (Location × Text) :=
  match Cut.after? ".package(path: ".toList t with
  | some rest => do
      let (p, rest) ← literal? rest
      let rest ← Cut.after? [')'] rest
      return (.path p, rest)
  | none => do
      let rest ← Cut.after? ".package(url: ".toList t
      let (u, rest) ← literal? rest
      let rest ← Cut.after? ", ".toList rest
      let (q, rest) ← requirement? rest
      let rest ← Cut.after? [')'] rest
      return (.url u q, rest)

/-- A `.product(…)`, with its name and its package, and what follows it. -/
def product? (t : Text) : Option ((Text × Text) × Text) := do
  let rest ← Cut.after? ".product(name: ".toList t
  let (name, rest) ← literal? rest
  let rest ← Cut.after? ", package: ".toList rest
  let (package, rest) ← literal? rest
  let rest ← Cut.after? [')'] rest
  return ((name, package), rest)

variable {α : Type}

/-- One or more items with `sep` between them and `finish` after the last. -/
def items? (item : Text → Option (α × Text)) (sep finish : Text) (t : Text) :
    Option (List α × Text) :=
  match item t with
  | none => none
  | some (x, rest) =>
      match Cut.after? finish rest with
      | some rest => some ([x], rest)
      | none =>
          match Cut.after? sep rest with
          | none => none
          | some rest =>
              -- An item that takes nothing up is none.
              if _h : rest.length < t.length then
                (items? item sep finish rest).map fun (xs, r) => (x :: xs, r)
              else none
termination_by t.length

/-- Any number of items, up to `finish`. -/
def list? (item : Text → Option (α × Text)) (sep finish : Text) (t : Text) :
    Option (List α × Text) :=
  match Cut.after? finish t with
  | some rest => some ([], rest)
  | none => items? item sep finish t

/-- The entries of a whole manifest: as many packages as products. -/
def read? (platform : Platform) (t : Text) : Option (List Entry) := do
  let rest ← Cut.after? (opening platform) t
  let (locations, rest) ← list? location? ",\n\t\t".toList middle rest
  let (products, rest) ← list? product? ",\n\t\t\t".toList closing rest
  if rest.isEmpty && locations.length = products.length then
    return (locations.zip products).map fun (l, p) => ⟨l, p.1, p.2⟩
  else none

/-- The entries in the bytes of a manifest. -/
def entries? (platform : Platform) (m : Manifest) : Option (List Entry) :=
  (Utf8.decode m.bytes).bind (read? platform)

/-! ## Section 2: One entry -/

theorem render_atLeast (v : Text) :
    (Requirement.atLeast v).render = "from: ".toList ++ literal v := rfl

theorem render_revision (r : Text) :
    (Requirement.revision r).render = "revision: ".toList ++ literal r := rfl

theorem render_unbounded : Requirement.unbounded.render = unboundedRange := rfl

theorem render_path (p : Text) :
    (Location.path p).render = ".package(path: ".toList ++ (literal p ++ [')']) := by
  show ".package(path: ".toList ++ literal p ++ ")".toList = _
  rw [List.append_assoc]
  rfl

theorem render_url (u : Text) (q : Requirement) :
    (Location.url u q).render =
      ".package(url: ".toList ++ (literal u ++ (", ".toList ++ (q.render ++ [')']))) := by
  show ".package(url: ".toList ++ literal u ++ ", ".toList ++ q.render ++ ")".toList = _
  simp only [List.append_assoc]
  rfl

theorem renderProduct_eq (e : Entry) :
    e.renderProduct = ".product(name: ".toList ++ (literal e.product ++
      (", package: ".toList ++ (literal e.package ++ [')']))) := by
  show ".product(name: ".toList ++ literal e.product ++ ", package: ".toList
    ++ literal e.package ++ ")".toList = _
  simp only [List.append_assoc]
  rfl

theorem requirement?_render (q : Requirement) (rest : Text) :
    requirement? (q.render ++ rest) = some (q, rest) := by
  unfold requirement?
  cases q with
  | atLeast v =>
    rw [render_atLeast, List.append_assoc, Cut.after?_append]
    simp only [literal?_literal, Option.map_some]
  | revision v =>
    have hfrom : Cut.after? "from: ".toList ("revision: ".toList ++ (literal v ++ rest)) = none :=
      Cut.after?_eq_none rfl
    rw [render_revision, List.append_assoc, hfrom, Cut.after?_append]
    simp only [literal?_literal, Option.map_some]
  | unbounded =>
    have hfrom : Cut.after? "from: ".toList (unboundedRange ++ rest) = none :=
      Cut.after?_eq_none rfl
    have hrevision : Cut.after? "revision: ".toList (unboundedRange ++ rest) = none :=
      Cut.after?_eq_none rfl
    rw [render_unbounded, hfrom, hrevision, Cut.after?_append]
    rfl

theorem location?_render (l : Location) (rest : Text) :
    location? (l.render ++ rest) = some (l, rest) := by
  unfold location?
  cases l with
  | path p =>
    rw [render_path, List.append_assoc, Cut.after?_append]
    simp only [List.append_assoc, literal?_literal, Cut.after?_append, Option.bind_eq_bind,
      Option.bind_some, Option.pure_def]
  | url u q =>
    have hpath : Cut.after? ".package(path: ".toList (".package(url: ".toList ++ (literal u ++
        (", ".toList ++ (q.render ++ [')'])) ++ rest)) = none := Cut.after?_eq_none rfl
    rw [render_url, List.append_assoc, hpath, Cut.after?_append]
    simp only [List.append_assoc, literal?_literal, Cut.after?_append, requirement?_render,
      Option.bind_eq_bind, Option.bind_some, Option.pure_def]

theorem product?_renderProduct (e : Entry) (rest : Text) :
    product? (e.renderProduct ++ rest) = some ((e.product, e.package), rest) := by
  unfold product?
  rw [renderProduct_eq, List.append_assoc, Cut.after?_append]
  simp only [List.append_assoc, literal?_literal, Cut.after?_append, Option.bind_eq_bind,
    Option.bind_some, Option.pure_def]

/-! ## Section 3: Lists of items -/

section items
variable {β : Type} {item : Text → Option (α × Text)} {sep finish : Text}
  {written : β → Text} {value : β → α}

/-- Items written with separators are read back.  The induction is on the
    items; what ends the list must not look like what goes on with it. -/
theorem items?_join (hitem : ∀ b rest, item (written b ++ rest) = some (value b, rest))
    (hsep : ∀ rest, Cut.after? finish (sep ++ rest) = none) (hne : sep ≠ [])
    (b : β) (bs : List β) (rest : Text) :
    items? item sep finish (Cut.join sep ((b :: bs).map written) ++ (finish ++ rest)) =
      some ((b :: bs).map value, rest) := by
  induction bs generalizing b with
  | nil =>
    rw [items?, List.map_cons, List.map_nil, Cut.join, hitem]
    simp only [Cut.after?_append, List.map_cons, List.map_nil]
  | cons c cs ih =>
    have ih' := ih c
    rw [List.map_cons] at ih'
    rw [items?, List.map_cons, List.map_cons, Cut.join_cons _ _ (List.cons_ne_nil _ _),
      List.append_assoc, List.append_assoc, hitem]
    -- The item and the separator take something up, so the reader goes on.
    have hlt : (Cut.join sep (written c :: cs.map written) ++ (finish ++ rest)).length <
        (written b ++ (sep ++ (Cut.join sep (written c :: cs.map written)
          ++ (finish ++ rest)))).length := by
      have := List.length_pos_iff.2 hne
      simp only [List.length_append]
      omega
    simp only [hsep, Cut.after?_append, dif_pos hlt, ih', Option.map_some, List.map_cons]

theorem list?_join (hitem : ∀ b rest, item (written b ++ rest) = some (value b, rest))
    (hstart : ∀ b rest, Cut.after? finish (written b ++ rest) = none)
    (hsep : ∀ rest, Cut.after? finish (sep ++ rest) = none) (hne : sep ≠ [])
    (bs : List β) (rest : Text) :
    list? item sep finish (Cut.join sep (bs.map written) ++ (finish ++ rest)) =
      some (bs.map value, rest) := by
  cases bs with
  | nil =>
    rw [list?, List.map_nil, Cut.join, List.nil_append, Cut.after?_append]
    rfl
  | cons b bs =>
    have hnone : Cut.after? finish
        (Cut.join sep ((b :: bs).map written) ++ (finish ++ rest)) = none := by
      cases bs with
      | nil => rw [List.map_cons, List.map_nil, Cut.join]; exact hstart b _
      | cons c cs =>
        rw [List.map_cons, List.map_cons, Cut.join_cons _ _ (List.cons_ne_nil _ _),
          List.append_assoc, List.append_assoc]
        exact hstart b _
    rw [list?, hnone]
    exact items?_join hitem hsep hne b bs rest

end items

/-! ## Section 4: Whole manifests -/

theorem after?_middle_location (l : Location) (rest : Text) :
    Cut.after? middle (l.render ++ rest) = none := by
  cases l with
  | path p => rw [render_path, List.append_assoc]; exact Cut.after?_eq_none rfl
  | url u q => rw [render_url, List.append_assoc]; exact Cut.after?_eq_none rfl

theorem after?_closing_product (e : Entry) (rest : Text) :
    Cut.after? closing (e.renderProduct ++ rest) = none := by
  rw [renderProduct_eq, List.append_assoc]
  exact Cut.after?_eq_none rfl

theorem read?_render (platform : Platform) (es : List Entry) :
    read? platform (render platform es) = some es := by
  have hcomma : ",\n\t\t".toList ≠ [] := by decide
  have hitem : ∀ (e : Entry) (rest : Text),
      location? (e.location.render ++ rest) = some (e.location, rest) :=
    fun e => location?_render e.location
  have hlocations : ∀ rest, list? location? ",\n\t\t".toList middle
      (Cut.join ",\n\t\t".toList (es.map fun e => e.location.render) ++ (middle ++ rest)) =
        some (es.map Entry.location, rest) :=
    list?_join hitem (fun e => after?_middle_location e.location)
      (fun _ => Cut.after?_eq_none rfl) hcomma es
  have hsep : ",\n\t\t\t".toList ≠ [] := by decide
  have hproducts : ∀ rest, list? product? ",\n\t\t\t".toList closing
      (Cut.join ",\n\t\t\t".toList (es.map Entry.renderProduct) ++ (closing ++ rest)) =
        some (es.map fun e => (e.product, e.package), rest) :=
    list?_join product?_renderProduct after?_closing_product
      (fun _ => Cut.after?_eq_none rfl) hsep es
  have hlast := hproducts []
  rw [List.append_nil] at hlast
  unfold read? render
  simp only [List.append_assoc, Cut.after?_append, hlocations, hlast, Option.bind_eq_bind,
    Option.bind_some]
  -- The locations and the products were taken apart, and are put together again.
  have hzip : (es.map Entry.location).zip (es.map fun e => (e.product, e.package)) =
      es.map fun e => (e.location, e.product, e.package) := by
    rw [List.zip_map']
  simp [hzip, Function.comp_def]

theorem entries?_ofDependencies (o : Options) (ds : List Dependency) :
    (ofDependencies o ds).entries? o.platform = some (ds.map (entryOf o.ssh)) := by
  unfold entries? ofDependencies
  rw [Utf8.decode_encode, Option.bind_some]
  exact read?_render o.platform _

/-- Two manifests are the same text if and only if their entries agree. -/
theorem manifestText_eq_iff {o : Options} {ds ds' : List Dependency} :
    manifestText o ds = manifestText o ds' ↔
      ds.map (entryOf o.ssh) = ds'.map (entryOf o.ssh) := by
  unfold manifestText
  constructor
  · intro h
    have hread := read?_render o.platform (ds.map (entryOf o.ssh))
    rw [h, read?_render] at hread
    exact (Option.some.inj hread).symm
  · intro h
    rw [h]

/-! ## Section 5: Lines -/

theorem count_newline_requirement (q : Requirement) : q.render.count '\n' = 0 := by
  cases q with
  | atLeast v => rw [render_atLeast, List.count_append, count_newline_literal]; rfl
  | revision r => rw [render_revision, List.count_append, count_newline_literal]; rfl
  | unbounded => rfl

theorem count_newline_location (l : Location) : l.render.count '\n' = 0 := by
  cases l with
  | path p =>
    rw [render_path, List.count_append, List.count_append, count_newline_literal]
    rfl
  | url u q =>
    rw [render_url]
    simp only [List.count_append, count_newline_literal, count_newline_requirement]
    rfl

theorem count_newline_product (e : Entry) : e.renderProduct.count '\n' = 0 := by
  rw [renderProduct_eq]
  simp only [List.count_append, count_newline_literal]
  rfl

/-- A manifest has as many lines as the number of its entries says. -/
theorem count_newline_render (platform : Platform) (es : List Entry) :
    (render platform es).count '\n' =
      (render platform []).count '\n' + 2 * (es.length - 1) := by
  have hlocations : ∀ x ∈ es.map (fun e => e.location.render), x.count '\n' = 0 := by
    intro x hx
    obtain ⟨e, _, rfl⟩ := List.mem_map.1 hx
    exact count_newline_location e.location
  have hproducts : ∀ x ∈ es.map Entry.renderProduct, x.count '\n' = 0 := by
    intro x hx
    obtain ⟨e, _, rfl⟩ := List.mem_map.1 hx
    exact count_newline_product e
  have hsep : (",\n\t\t".toList.count '\n') = 1 := by decide
  have hsep' : (",\n\t\t\t".toList.count '\n') = 1 := by decide
  unfold render
  simp only [List.count_append, Cut.count_join _ _ hlocations, Cut.count_join _ _ hproducts,
    List.length_map, hsep, hsep', List.map_nil, Cut.join, List.count_nil]
  omega

end Manifest
end ScriptDeps
