import ScriptDeps.Proofs.Clean.Outcome
import ScriptDeps.Toolchain.Scripted

/-! # Small caches

    Caches below the root of the file system whose items are listed.  That a
    list is one of a cache can be checked (`isCache_cacheOf`). -/

namespace ScriptDeps

open FileSystem Store

namespace Tool

/-! ## Section 1: Model -/

/-- A user without a home who works in the root directory. -/
def cacheEnvironment : Environment := ⟨⟨none, none, none⟩, fun _ => none, none, none, "/"⟩

/-- Settings that put the cache at `/c`. -/
def cacheSettings : Settings := { root := some "/c" }

def cacheTop : Location := [Utf8.encode "c".toList]

def cacheHost : Host := Scripted.bare 0 [] [] "/t" []

/-- The nodes of an entry that holds one file. -/
def entryNodes (hash : Text) (content : Bytes) : List (Location × Node) :=
  let loc := (Item.entry (Utf8.encode hash)).loc cacheTop
  [(loc, .directory), (loc ++ [Utf8.encode "x".toList], .file content 0 plainMode)]

/-- The node of a marker. -/
def markerNode (name hash : Text) : Location × Node :=
  ((Item.marker (Utf8.encode name)).loc cacheTop, .link (markerTarget hash))

/-- The file system that holds a cache with the given nodes. -/
def cacheOf (nodes : List (Location × Node)) : FileSystem :=
  ⟨(cacheTop, .directory) :: (cacheTop ++ [storeName], .directory) ::
    (cacheTop ++ [markersName], .directory) :: nodes⟩

/-! ## Section 2: Checking -/

/-- Whether nodes make up a cache. -/
def IsCacheOf (nodes : List (Location × Node)) : Prop :=
  (∀ e ∈ (cacheOf nodes).nodes, (e.1 ≠ [] ∧ (cacheOf nodes).at? e.1.dropLast = some .directory) ∧
    isCacheNode cacheTop e = true) ∧
  (cacheOf nodes).nodes.Pairwise fun e f => e.1 ≠ f.1

instance (nodes : List (Location × Node)) : Decidable (IsCacheOf nodes) :=
  inferInstanceAs (Decidable (_ ∧ _))

theorem isCache_cacheOf (nodes : List (Location × Node)) (h : IsCacheOf nodes) :
    (store cacheEnvironment cacheSettings).IsCache cacheHost.cwd cacheTop (cacheOf nodes) := by
  refine isCache_of_nodes (isTree_of_nodes (fun e he => (h.1 e he).1) h.2) (.inr ?_) (by decide)
    (by decide) fun e he => (h.1 e he).2
  exact stands_below_root (by decide) (by decide) rfl

theorem linksTo_of_mem {nodes : List (Location × Node)} (h : IsCacheOf nodes) {name hash : Text}
    (hmem : markerNode name hash ∈ nodes) :
    LinksTo (cacheOf nodes) cacheTop (Utf8.encode name) hash :=
  (isCache_cacheOf nodes h).tree.at?_of_mem (List.mem_cons_of_mem _ (List.mem_cons_of_mem _
    (List.mem_cons_of_mem _ hmem)))

end Tool
end ScriptDeps
