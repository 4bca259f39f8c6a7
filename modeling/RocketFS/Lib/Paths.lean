import Mathlib.Logic.Function.Iterate
import RocketFS.Lib.CreationOrder

/-!
# Paths in a tree with named edges

Every node other than the root is stored with its place: its parent and its name. A path is
followed from the root by finding the children by their names. What is found stands at the
place where it was looked for, but not every node need be found: of two nodes at one place at
most one is, and whatever stands below the other is out of reach.

## Main definitions

* `Spells` — the names on the way from the root to a node, as the places say
* `follow` — the node a path leads to

## Main results

* `Spells.unique` — a node has at most one path
* `CreationOrder.exists_spells` — and it has one where parents are created before children
* `follow_ne_of_hidden` — nothing below a node that is not found at its place is reached
-/

namespace RocketFS

variable {α κ ν : Type*}

/-- The names on the way from the root to a node. -/
inductive Spells (place : κ → Option (κ × ν)) (root : κ) : List ν → κ → Prop
  | root : Spells place root [] root
  | snoc {path : List ν} {parent node : κ} {name : ν} :
      Spells place root path parent → place node = some (parent, name) →
      Spells place root (path ++ [name]) node

/-- The node a path leads to. -/
def follow (child : κ → ν → Option κ) (root : κ) (path : List ν) : Option κ :=
  path.foldlM child root

section Follow

variable {place : κ → Option (κ × ν)} {child : κ → ν → Option κ} {root node : κ}
  {path path' : List ν}

@[simp]
theorem follow_snoc (path : List ν) (name : ν) :
    follow child root (path ++ [name]) = (follow child root path).bind (child · name) := by
  simp only [follow, List.foldlM_append, List.foldlM_cons, List.foldlM_nil, bind_pure]
  rfl

/-- A node has at most one path. -/
theorem Spells.unique (hroot : place root = none) (h : Spells place root path node)
    (h' : Spells place root path' node) : path = path' := by
  induction h generalizing path' with
  | root =>
    cases h' with
    | root => rfl
    | snoc _ hplace =>
      rw [hroot] at hplace
      cases hplace
  | snoc _ hplace ih =>
    cases h' with
    | root =>
      rw [hroot] at hplace
      cases hplace
    | snoc hparent hplace' =>
      obtain ⟨rfl, rfl⟩ := Prod.mk.inj (Option.some.inj (hplace.symm.trans hplace'))
      rw [ih hparent]

/-- Nodes that are added do not change the paths there are. -/
theorem Spells.mono {place' : κ → Option (κ × ν)}
    (hle : ∀ c x, place c = some x → place' c = some x) (h : Spells place root path node) :
    Spells place' root path node := by
  induction h with
  | root => exact .root
  | @snoc path parent node name _ hplace ih => exact .snoc ih (hle node _ hplace)

/-- A path that is followed is the path of the node it leads to, if children stand at the
place where they are looked for. -/
theorem Spells.of_follow (hchild : ∀ p n c, child p n = some c → place c = some (p, n))
    (h : follow child root path = some node) : Spells place root path node := by
  induction path using List.reverseRecOn generalizing node with
  | nil =>
    obtain rfl := Option.some.inj h
    exact .root
  | append_singleton path name ih =>
    rw [follow_snoc] at h
    obtain ⟨parent, hparent, hnode⟩ := Option.bind_eq_some_iff.mp h
    exact .snoc (ih hparent) (hchild parent name node hnode)

/-- Where every node is found at its place, the path of a node leads to it. -/
theorem Spells.follow_eq (hfound : ∀ c p n, place c = some (p, n) → child p n = some c)
    (h : Spells place root path node) : follow child root path = some node := by
  induction h with
  | root => rfl
  | @snoc path parent node name _ hplace ih =>
    rw [follow_snoc, ih]
    exact hfound node parent name hplace

/-- No path leads to a node below one that is not found at its place. -/
theorem follow_ne_of_hidden {up : κ → κ} {hidden p : κ} {n : ν}
    (hchild : ∀ p n c, child p n = some c → place c = some (p, n))
    (hup : ∀ c p n, place c = some (p, n) → up c = p) (hupRoot : up root = root)
    (hroot : place root = none) (hplace : place hidden = some (p, n))
    (hhidden : child p n ≠ some hidden) {k : ℕ} (hbelow : up^[k] node = hidden) :
    follow child root path ≠ some node := by
  have hne : root ≠ hidden := by
    rintro rfl
    rw [hroot] at hplace
    cases hplace
  -- a path of one name less leads to the parent, which is one step nearer to the hidden node
  induction k generalizing node path with
  | zero =>
    obtain rfl : node = hidden := hbelow
    intro hfollow
    cases path using List.reverseRecOn with
    | nil => exact hne (Option.some.inj hfollow)
    | append_singleton path name =>
      rw [follow_snoc] at hfollow
      obtain ⟨parent, _, hnode⟩ := Option.bind_eq_some_iff.mp hfollow
      obtain ⟨rfl, rfl⟩ :=
        Prod.mk.inj (Option.some.inj ((hchild _ _ _ hnode).symm.trans hplace))
      exact hhidden hnode
  | succ k ih =>
    intro hfollow
    cases path using List.reverseRecOn with
    | nil =>
      obtain rfl := Option.some.inj hfollow
      rw [Function.iterate_succ_apply, hupRoot] at hbelow
      rw [Function.iterate_fixed hupRoot] at hbelow
      exact hne hbelow
    | append_singleton path name =>
      rw [follow_snoc] at hfollow
      obtain ⟨parent, hparent, hnode⟩ := Option.bind_eq_some_iff.mp hfollow
      rw [Function.iterate_succ_apply, hup node parent name (hchild _ _ _ hnode)] at hbelow
      exact ih hbelow hparent

end Follow

/-- Every row has a path. -/
theorem CreationOrder.exists_spells {id parent : α → κ} {name : α → ν} {root : κ} {rows : List α}
    (h : CreationOrder id parent root rows) {place : κ → Option (κ × ν)}
    (hplace : ∀ r ∈ rows, place (id r) = some (parent r, name r)) {row : α} (hrow : row ∈ rows) :
    ∃ path, Spells place root path (id row) := by
  induction rows using List.reverseRecOn generalizing row with
  | nil => exact absurd hrow List.not_mem_nil
  | append_singleton rows last ih =>
    have hearlier : ∀ r ∈ rows, ∃ path, Spells place root path (id r) := fun r hr =>
      ih h.dropLast (fun r hr => hplace r (List.mem_append_left _ hr)) hr
    rcases List.mem_append.mp hrow with hold | hlast
    · exact hearlier row hold
    · obtain rfl := List.mem_singleton.mp hlast
      have hat := hplace row hrow
      rcases h.parents rows row [] rfl with hroot | ⟨e, he, hid⟩
      · exact ⟨_, .snoc .root (hroot ▸ hat)⟩
      · obtain ⟨path, hpath⟩ := hearlier e he
        exact ⟨_, .snoc hpath (hid ▸ hat)⟩

end RocketFS
