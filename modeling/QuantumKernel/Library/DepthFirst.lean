import Mathlib.Data.List.Nodup
import Mathlib.Data.Set.Card
import Mathlib.Logic.Relation
import Mathlib.Tactic

/-! # Depth-first visits into a bounded table

A visit appends its node to a table and then visits the children of the node.  It keeps no set of
visited nodes, so on a graph with circles it would never end, were it not for the table: a visit
that finds the table full returns at once.  Every nested visit has appended its node before it
goes deeper, which bounds the nesting by the room in the table (`visit_returns`).

Where every node has one parent and no root has one, the nodes visited below two siblings are
apart, so no node is listed twice.  If moreover the table has room for all nodes that can be
reached, it lists exactly these (`visitAll_exact`).  A full table is no exception: it then holds
as many nodes as there are.
-/

namespace DepthFirst

open Relation

variable {α : Type*} (children : α → List α) (capacity : Nat)

/-- A visit, nested at most `depth` deep; `none` if this is not enough. -/
def visit : Nat → α → List α → Option (List α)
  | 0, _, _ => none
  | depth + 1, node, found =>
    if capacity ≤ found.length then some found
    else (children node).foldlM (fun found child => visit depth child found) (found ++ [node])

/-- The visits of a list of nodes, one behind the other. -/
def visitAll (depth : Nat) (nodes found : List α) : Option (List α) :=
  nodes.foldlM (fun found node => visit children capacity depth node found) found

/-- `y` is a child of `x`. -/
def Child (x y : α) : Prop := y ∈ children x

/-- `y` can be reached from `x`. -/
def Below (x y : α) : Prop := ReflTransGen (Child children) x y

/-- What can be reached from the roots. -/
def Reachable (roots : List α) (x : α) : Prop := ∃ root ∈ roots, Below children root x

/-- No circles and no joins: a node has one parent, and a root has none. -/
structure Forest (roots : List α) : Prop where
  roots_nodup : roots.Nodup
  children_nodup {x : α} : Reachable children roots x → (children x).Nodup
  parent_unique {x y z : α} : Reachable children roots x → Reachable children roots y →
    z ∈ children x → z ∈ children y → x = y
  root_parentless {x root : α} : Reachable children roots x → root ∈ roots → root ∉ children x

variable {children capacity} {depth : Nat} {node x y z : α} {nodes found result roots : List α}

theorem visit_succ (room : found.length < capacity) :
    visit children capacity (depth + 1) node found =
      visitAll children capacity depth (children node) (found ++ [node]) := by
  rw [visit, if_neg (by omega)]
  rfl

theorem visit_full (full : capacity ≤ found.length) :
    visit children capacity (depth + 1) node found = some found := by
  rw [visit, if_pos full]

@[simp] theorem visitAll_nil : visitAll children capacity depth [] found = some found := rfl

@[simp] theorem visitAll_cons : visitAll children capacity depth (node :: nodes) found =
    (visit children capacity depth node found).bind (visitAll children capacity depth nodes) := rfl

/-! ## Reaching nodes -/

theorem Reachable.root {root : α} (isRoot : root ∈ roots) : Reachable children roots root :=
  ⟨root, isRoot, .refl⟩

theorem Reachable.below (reachable : Reachable children roots x) (below : Below children x y) :
    Reachable children roots y := by
  obtain ⟨root, isRoot, path⟩ := reachable
  exact ⟨root, isRoot, path.trans below⟩

theorem Reachable.child (reachable : Reachable children roots x) (child : y ∈ children x) :
    Reachable children roots y :=
  reachable.below (.single child)

/-! ## The nesting is bounded by the room in the table -/

/-- The loop over the nodes returns if every visit in it does. -/
theorem visitAll_returns_of {p : List α → Prop}
    (each : ∀ node ∈ nodes, ∀ found, p found →
      ∃ result, visit children capacity depth node found = some result ∧ p result)
    (start : p found) : ∃ result, visitAll children capacity depth nodes found = some result ∧ p result := by
  induction nodes generalizing found with
  | nil => exact ⟨found, rfl, start⟩
  | cons node nodes ih =>
    obtain ⟨next, visited, nextGood⟩ := each node List.mem_cons_self found start
    obtain ⟨result, rest, resultGood⟩ := ih (fun n mem => each n (List.mem_cons_of_mem node mem)) nextGood
    refine ⟨result, ?_, resultGood⟩
    rw [visitAll_cons, visited]
    exact rest

/-- A visit returns if the depth allows for one more than there is room in the table. -/
theorem visit_returns (enough : capacity < depth + found.length) (bound : found.length ≤ capacity) :
    ∃ result, visit children capacity depth node found = some result ∧ found.length ≤ result.length ∧
      result.length ≤ capacity := by
  induction depth generalizing node found with
  | zero => omega
  | succ depth ih =>
    by_cases room : found.length < capacity
    · rw [visit_succ room]
      have start : (found ++ [node]).length = found.length + 1 := List.length_append
      have each : ∀ child ∈ children node, ∀ next : List α, found.length + 1 ≤ next.length ∧ next.length ≤ capacity →
          ∃ result, visit children capacity depth child next = some result ∧
            found.length + 1 ≤ result.length ∧ result.length ≤ capacity := by
        intro child _ next between
        obtain ⟨result, visited, longer, resultBound⟩ :
            ∃ result, visit children capacity depth child next = some result ∧ next.length ≤ result.length ∧
              result.length ≤ capacity := ih (by omega) between.2
        exact ⟨result, visited, by omega, resultBound⟩
      obtain ⟨result, visited, longer, resultBound⟩ := visitAll_returns_of each ⟨start.ge, by omega⟩
      exact ⟨result, visited, by omega, resultBound⟩
    · exact ⟨found, visit_full (by omega), le_rfl, bound⟩

theorem visitAll_returns (enough : capacity < depth) :
    ∃ result, visitAll children capacity depth nodes [] = some result ∧ result.length ≤ capacity := by
  have each : ∀ node ∈ nodes, ∀ found : List α, found.length ≤ capacity →
      ∃ result, visit children capacity depth node found = some result ∧ result.length ≤ capacity := by
    intro node _ found bound
    obtain ⟨result, visited, -, resultBound⟩ :
        ∃ result, visit children capacity depth node found = some result ∧ found.length ≤ result.length ∧
          result.length ≤ capacity := visit_returns (by omega) bound
    exact ⟨result, visited, resultBound⟩
  exact visitAll_returns_of each (Nat.zero_le capacity)

/-! ## What a visit appends -/

/-- An induction over nested visits. -/
theorem visitAll_induct {p : α → List α → List α → Prop} {q : List α → List α → List α → Prop}
    (full : ∀ node found, capacity ≤ found.length → p node found found)
    (enter : ∀ node found result, found.length < capacity →
      q (children node) (found ++ [node]) result → p node found result)
    (nil : ∀ found, q [] found found)
    (cons : ∀ node nodes found next result, p node found next → q nodes next result →
      q (node :: nodes) found result)
    (visited : visitAll children capacity depth nodes found = some result) : q nodes found result := by
  have loop (depth : Nat)
      (single : ∀ node found result, visit children capacity depth node found = some result →
        p node found result) : ∀ nodes found result,
      visitAll children capacity depth nodes found = some result → q nodes found result := by
    intro nodes
    induction nodes with
    | nil =>
      intro found result visited
      cases visited
      exact nil found
    | cons node nodes ih =>
      intro found result visited
      rw [visitAll_cons, Option.bind_eq_some_iff] at visited
      obtain ⟨next, first, rest⟩ := visited
      exact cons node nodes found next result (single node found next first) (ih next result rest)
  refine loop depth ?_ nodes found result visited
  clear visited
  induction depth with
  | zero => exact fun node found result visited => absurd visited (by simp [visit])
  | succ depth ih =>
    intro node found result visited
    by_cases room : found.length < capacity
    · rw [visit_succ room] at visited
      exact enter node found result room (loop depth ih _ _ _ visited)
    · rw [visit_full (by omega)] at visited
      cases visited
      exact full node found (by omega)

/-- What is appended for a list of nodes.  It is all there is below them, if the visits never
found the table full. -/
structure Traversed (children : α → List α) (nodes more : List α) (complete : Prop) : Prop where
  below {x : α} : x ∈ more → ∃ node ∈ nodes, Below children node x
  covers (completed : complete) {node : α} : node ∈ nodes → node ∈ more
  closed (completed : complete) {x y : α} : x ∈ more → y ∈ children x → y ∈ more

variable {more more' : List α} {complete complete' : Prop}

theorem Traversed.nothing (incomplete : ¬ complete) : Traversed children nodes [] complete where
  below mem := absurd mem List.not_mem_nil
  covers completed := absurd completed incomplete
  closed completed := absurd completed incomplete

theorem Traversed.none : Traversed children [] [] complete where
  below mem := absurd mem List.not_mem_nil
  covers _ _ mem := mem
  closed _ _ _ mem := absurd mem List.not_mem_nil

theorem Traversed.enter (inner : Traversed children (children node) more complete) :
    Traversed children [node] (node :: more) complete where
  below mem := by
    refine ⟨node, List.mem_singleton_self node, ?_⟩
    cases mem with
    | head => exact .refl
    | tail _ mem =>
      obtain ⟨child, isChild, path⟩ := inner.below mem
      exact .head isChild path
  covers _ _ mem := by
    rw [List.mem_singleton.mp mem]
    exact List.mem_cons_self
  closed completed x y mem child := by
    apply List.mem_cons_of_mem
    cases mem with
    | head => exact inner.covers completed child
    | tail _ mem => exact inner.closed completed mem child

theorem Traversed.cons (first : Traversed children [node] more complete)
    (rest : Traversed children nodes more' complete') (both : complete' → complete) :
    Traversed children (node :: nodes) (more ++ more') complete' where
  below mem := by
    rcases List.mem_append.mp mem with mem | mem
    · obtain ⟨n, isNode, path⟩ := first.below mem
      exact ⟨n, List.mem_cons.mpr (Or.inl (List.mem_singleton.mp isNode)), path⟩
    · obtain ⟨n, isNode, path⟩ := rest.below mem
      exact ⟨n, List.mem_cons_of_mem node isNode, path⟩
  covers completed n mem := by
    cases mem with
    | head => exact List.mem_append_left more' (first.covers (both completed) List.mem_cons_self)
    | tail _ mem => exact List.mem_append_right more (rest.covers completed mem)
  closed completed x y mem child := by
    rcases List.mem_append.mp mem with mem | mem
    · exact List.mem_append_left more' (first.closed (both completed) mem child)
    · exact List.mem_append_right more (rest.closed completed mem child)

theorem visitAll_appends (visited : visitAll children capacity depth nodes found = some result) :
    ∃ more, result = found ++ more ∧ Traversed children nodes more (result.length < capacity) := by
  refine visitAll_induct
    (p := fun node found result =>
      ∃ more, result = found ++ more ∧ Traversed children [node] more (result.length < capacity))
    (q := fun nodes found result =>
      ∃ more, result = found ++ more ∧ Traversed children nodes more (result.length < capacity))
    ?_ ?_ ?_ ?_ visited
  · exact fun node found full => ⟨[], (List.append_nil found).symm, .nothing (by omega)⟩
  · rintro node found _ - ⟨more, rfl, inner⟩
    exact ⟨node :: more, by simp, inner.enter⟩
  · exact fun found => ⟨[], (List.append_nil found).symm, .none⟩
  · rintro node nodes found _ _ ⟨more, rfl, first⟩ ⟨more', rfl, rest⟩
    refine ⟨more ++ more', by simp, first.cons rest fun completed => ?_⟩
    simp only [List.length_append] at completed ⊢
    omega

/-! ## Nothing is listed twice -/

/-- Nothing is below both. -/
def Apart (children : α → List α) (x y : α) : Prop := ∀ z, Below children x z → ¬ Below children y z

variable (forest : Forest children roots)
include forest

/-- Two nodes above the same one are above each other. -/
theorem Forest.comparable (left : Reachable children roots x) (right : Reachable children roots y)
    (fromLeft : Below children x z) (fromRight : Below children y z) :
    Below children x y ∨ Below children y x := by
  induction fromLeft with
  | refl => exact Or.inr fromRight
  | @tail a z path edge ih =>
    rcases fromRight.cases_tail with rfl | ⟨b, path', edge'⟩
    · exact Or.inl (path.tail edge)
    · obtain rfl := forest.parent_unique (left.below path) (right.below path') edge edge'
      exact ih path'

/-- A parent is not below its child. -/
theorem Forest.acyclic (reachable : Reachable children roots x) (child : y ∈ children x) :
    ¬ Below children y x := by
  obtain ⟨root, isRoot, path⟩ := reachable
  induction path generalizing y with
  | refl =>
    intro circle
    rcases circle.cases_tail with rfl | ⟨parent, path, edge⟩
    · exact forest.root_parentless (.root isRoot) isRoot child
    · exact forest.root_parentless ((Reachable.root isRoot).child child |>.below path) isRoot edge
  | @tail parent x path edge ih =>
    intro circle
    have upper : Reachable children roots parent := ⟨root, isRoot, path⟩
    rcases circle.cases_tail with rfl | ⟨last, path', edge'⟩
    · obtain rfl := forest.parent_unique upper (upper.child edge) edge child
      exact ih child .refl
    · have lower := (upper.child edge).child child |>.below path'
      obtain rfl := forest.parent_unique upper lower edge edge'
      exact ih edge (.head child path')

theorem Forest.apart_of_beside (distinct : nodes.Nodup) (reachable : ∀ x ∈ nodes, Reachable children roots x)
    (beside : ∀ x ∈ nodes, ∀ y ∈ nodes, x ≠ y → ¬ Below children x y) : nodes.Pairwise (Apart children) := by
  refine distinct.pairwise_of_forall_ne fun x left y right differ z fromLeft fromRight => ?_
  rcases forest.comparable (reachable x left) (reachable y right) fromLeft fromRight with path | path
  · exact beside x left y right differ path
  · exact beside y right x left (Ne.symm differ) path

/-- Siblings are apart. -/
theorem Forest.apart_children (reachable : Reachable children roots node) :
    (children node).Pairwise (Apart children) := by
  refine forest.apart_of_beside (forest.children_nodup reachable) (fun x mem => reachable.child mem) ?_
  intro x left y right differ path
  rcases path.cases_tail with rfl | ⟨last, path, edge⟩
  · exact differ rfl
  · obtain rfl := forest.parent_unique reachable ((reachable.child left).below path) right edge
    exact forest.acyclic reachable left path

theorem Forest.apart_roots : roots.Pairwise (Apart children) := by
  refine forest.apart_of_beside forest.roots_nodup (fun x mem => .root mem) ?_
  intro x left y right differ path
  rcases path.cases_tail with rfl | ⟨last, path, edge⟩
  · exact differ rfl
  · exact forest.root_parentless ((Reachable.root left).below path) right edge

/-- Visits of nodes that are apart append nothing twice. -/
theorem visitAll_nodup (reachable : ∀ x ∈ nodes, Reachable children roots x)
    (apart : nodes.Pairwise (Apart children))
    (visited : visitAll children capacity depth nodes found = some result) :
    ∃ more, result = found ++ more ∧ more.Nodup ∧ ∀ x ∈ more, ∃ node ∈ nodes, Below children node x := by
  refine visitAll_induct
    (p := fun node found result => Reachable children roots node →
      ∃ more, result = found ++ more ∧ more.Nodup ∧ ∀ x ∈ more, Below children node x)
    (q := fun nodes found result => (∀ x ∈ nodes, Reachable children roots x) → nodes.Pairwise (Apart children) →
      ∃ more, result = found ++ more ∧ more.Nodup ∧ ∀ x ∈ more, ∃ node ∈ nodes, Below children node x)
    ?_ ?_ ?_ ?_ visited reachable apart
  · exact fun node found _ _ => ⟨[], (List.append_nil found).symm, List.nodup_nil, by simp⟩
  · intro node found result _ inner reachable
    obtain ⟨more, rfl, distinct, below⟩ :=
      inner (fun x mem => reachable.child mem) (forest.apart_children reachable)
    refine ⟨node :: more, by simp, List.nodup_cons.mpr ⟨fun mem => ?_, distinct⟩, fun x mem => ?_⟩
    · obtain ⟨child, isChild, path⟩ := below node mem
      exact forest.acyclic reachable isChild path
    · cases mem with
      | head => exact .refl
      | tail _ mem =>
        obtain ⟨child, isChild, path⟩ := below x mem
        exact .head isChild path
  · exact fun found _ _ => ⟨[], (List.append_nil found).symm, List.nodup_nil, by simp⟩
  · intro node nodes found next result first rest reachable apart
    rw [List.pairwise_cons] at apart
    obtain ⟨more, rfl, distinct, below⟩ := first (reachable node List.mem_cons_self)
    obtain ⟨more', rfl, distinct', below'⟩ := rest (fun x mem => reachable x (List.mem_cons_of_mem node mem)) apart.2
    refine ⟨more ++ more', by simp, List.nodup_append.mpr ⟨distinct, distinct', ?_⟩, fun x mem => ?_⟩
    · rintro x left _ right rfl
      obtain ⟨sibling, isSibling, path⟩ := below' x right
      exact apart.1 sibling isSibling x (below x left) path
    · rcases List.mem_append.mp mem with mem | mem
      · exact ⟨node, List.mem_cons_self, below x mem⟩
      · obtain ⟨sibling, isSibling, path⟩ := below' x mem
        exact ⟨sibling, List.mem_cons_of_mem node isSibling, path⟩

/-- A table with room for all nodes lists each of them once. -/
theorem visitAll_exact (finite : {x | Reachable children roots x}.Finite)
    (fits : {x | Reachable children roots x}.ncard ≤ capacity)
    (visited : visitAll children capacity depth roots [] = some result) :
    result.Nodup ∧ ∀ x, x ∈ result ↔ Reachable children roots x := by
  classical
  obtain ⟨_, rfl, distinct, below⟩ := visitAll_nodup forest (fun x mem => .root mem) forest.apart_roots visited
  obtain ⟨_, rfl, traversed⟩ := visitAll_appends visited
  refine ⟨distinct, fun x => ⟨below x, fun reachable => ?_⟩⟩
  by_cases room : result.length < capacity
  · obtain ⟨root, isRoot, path⟩ := reachable
    induction path with
    | refl => exact traversed.covers room isRoot
    | tail _ edge ih => exact traversed.closed room ih edge
  · -- The table is full, and what it holds is reachable: so it is all there is.
    have inside : (result.toFinset : Set α) ⊆ {x | Reachable children roots x} :=
      fun y mem => below y (List.mem_toFinset.mp mem)
    have card : (result.toFinset : Set α).ncard = result.length := by
      rw [Set.ncard_coe_finset, List.toFinset_card_of_nodup distinct]
    have whole := Set.eq_of_subset_of_ncard_le inside (by omega) finite
    exact List.mem_toFinset.mp (whole.ge reachable)

end DepthFirst
