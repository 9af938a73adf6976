import Mathlib
import MonkeySource.Program.Traversal

set_option autoImplicit false

/-!
# What a walk says of the tree

A walk meets every place of the tree once, and in the order of the paths that lead there. The texts
can be folded back from it, right to left, as arities tell how many of the texts behind a node are
those of its children.
-/

namespace MonkeySource

namespace Node

@[elab_as_elim]
theorem induction_on_children {motive : Node → Prop} (node : Node)
    (step : ∀ node : Node, (∀ child ∈ node.children, motive child) → motive node) : motive node :=
  step node fun child _ => induction_on_children child step
termination_by node.height
decreasing_by exact height_lt_of_mem_children ‹_›

/-! ## Places -/

/-- The node at the end of a path of child numbers. -/
def below? (node : Node) : List Nat → Option Node
  | [] => some node
  | index :: path => node.children[index]?.bind fun child => child.below? path

/-- The path leads into one of the nodes, whose numbers begin there. -/
def LeadsInto (start : Nat) (nodes : List Node) (path : List Nat) (below : Node) : Prop :=
  ∃ index rest, path = (start + index) :: rest ∧
    nodes[index]?.bind (fun child => child.below? rest) = some below

theorem below?_eq_some_iff {node below : Node} {path : List Nat} :
    node.below? path = some below ↔
      (path = [] ∧ below = node) ∨ LeadsInto 0 node.children path below := by
  cases path with
  | nil => simp [below?, LeadsInto, eq_comm]
  | cons index path =>
      constructor
      · exact fun found => .inr ⟨index, path, by rw [Nat.zero_add], found⟩
      · rintro (⟨impossible, _⟩ | ⟨_, _, same, found⟩)
        · cases impossible
        · rw [Nat.zero_add] at same
          cases same
          exact found

theorem not_leadsInto_nil {start : Nat} {path : List Nat} {below : Node} :
    ¬ LeadsInto start [] path below := by
  simp [LeadsInto]

theorem leadsInto_cons_iff {start : Nat} {node below : Node} {nodes : List Node} {path : List Nat} :
    LeadsInto start (node :: nodes) path below ↔
      (∃ rest, path = start :: rest ∧ node.below? rest = some below) ∨
        LeadsInto (start + 1) nodes path below := by
  constructor
  · rintro ⟨index | index, rest, rfl, found⟩
    · exact .inl ⟨rest, rfl, found⟩
    · refine .inr ⟨index, rest, ?_, found⟩
      rw [Nat.add_assoc, Nat.add_comm 1]
  · rintro (⟨rest, rfl, found⟩ | ⟨index, rest, rfl, found⟩)
    · exact ⟨0, rest, rfl, found⟩
    · refine ⟨index + 1, rest, ?_, found⟩
      rw [Nat.add_assoc, Nat.add_comm 1]

end Node

/-- Places under their paths, as they are met by these visits. -/
structure Meets (leads : List Nat → Node → Prop) (depth : Nat) (places : List (List Nat × Node))
    (visits : List Visit) : Prop where
  /-- A path comes before those that go on from it, and before those that turn off to its right. -/
  ordered : places.Pairwise fun place later => place.1 < later.1
  complete : ∀ path below, (path, below) ∈ places ↔ leads path below
  visited : visits = places.map fun place => place.2.visit (depth + place.1.length)

/-- The visits are those of the places that the paths lead to, one for each, in their order. -/
def ListsInOrder (leads : List Nat → Node → Prop) (depth : Nat) (visits : List Visit) : Prop :=
  ∃ places, Meets leads depth places visits

namespace ListsInOrder

variable {leads first second : List Nat → Node → Prop} {depth : Nat} {visits later : List Visit}

theorem none (nowhere : ∀ path below, ¬ leads path below) : ListsInOrder leads depth [] :=
  ⟨[], .nil, by simpa using nowhere, rfl⟩

theorem root (node : Node) :
    ListsInOrder (fun path below => path = [] ∧ below = node) depth [node.visit depth] :=
  ⟨[([], node)], List.pairwise_singleton _ _, by simp, rfl⟩

theorem append (here : ListsInOrder first depth visits) (behind : ListsInOrder second depth later)
    (before : ∀ path below next other, first path below → second next other → path < next)
    (either : ∀ path below, leads path below ↔ first path below ∨ second path below) :
    ListsInOrder leads depth (visits ++ later) := by
  obtain ⟨places, met⟩ := here
  obtain ⟨others, behindMet⟩ := behind
  refine ⟨places ++ others, ?_, ?_, ?_⟩
  · refine List.pairwise_append.mpr ⟨met.ordered, behindMet.ordered, ?_⟩
    rintro ⟨path, below⟩ member ⟨next, other⟩ behindMember
    exact before path below next other ((met.complete path below).mp member)
      ((behindMet.complete next other).mp behindMember)
  · intro path below
    rw [List.mem_append, met.complete, behindMet.complete, either]
  · rw [met.visited, behindMet.visited, List.map_append]

theorem under (index : Nat) (listed : ListsInOrder leads (depth + 1) visits) :
    ListsInOrder (fun path below => ∃ rest, path = index :: rest ∧ leads rest below) depth
      visits := by
  obtain ⟨places, met⟩ := listed
  refine ⟨places.map fun place => (index :: place.1, place.2), ?_, ?_, ?_⟩
  · refine List.pairwise_map.mpr (met.ordered.imp ?_)
    intro place later before
    exact List.cons_lt_cons_iff.mpr (.inr ⟨rfl, before⟩)
  · intro path below
    rw [List.mem_map]
    constructor
    · rintro ⟨⟨rest, other⟩, member, same⟩
      cases same
      exact ⟨rest, rfl, (met.complete rest other).mp member⟩
    · rintro ⟨rest, rfl, leadsThere⟩
      exact ⟨(rest, below), (met.complete rest below).mpr leadsThere, rfl⟩
  · rw [met.visited, List.map_map]
    refine List.map_congr_left fun place _ => ?_
    simp only [Function.comp_apply, List.length_cons, Nat.add_assoc, Nat.add_comm 1]

theorem children (start : Nat) {nodes : List Node}
    (each : ∀ child ∈ nodes,
      ListsInOrder (fun path below => child.below? path = some below) (depth + 1)
        (child.walkFrom (depth + 1))) :
    ListsInOrder (Node.LeadsInto start nodes) depth
      (nodes.flatMap (Node.walkFrom (depth + 1))) := by
  induction nodes generalizing start with
  | nil => exact none fun _ _ => Node.not_leadsInto_nil
  | cons node nodes ih =>
      obtain ⟨here, behind⟩ := List.forall_mem_cons.mp each
      rw [List.flatMap_cons]
      refine (here.under start).append (ih (start + 1) behind) ?_
        fun path below => Node.leadsInto_cons_iff
      rintro _ _ _ _ ⟨rest, rfl, _⟩ ⟨index, next, rfl, _⟩
      exact List.cons_lt_cons_iff.mpr (.inl (by omega))

/-- By induction on the tree: the root comes before all that its children list, and a child before
the next one. -/
theorem walkFrom (node : Node) (depth : Nat) :
    ListsInOrder (fun path below => node.below? path = some below) depth (node.walkFrom depth) := by
  induction node using Node.induction_on_children generalizing depth with
  | step node ih =>
      rw [Node.walkFrom_eq, ← List.singleton_append]
      refine (root node).append (children 0 fun child member => ih child member (depth + 1)) ?_
        fun path below => Node.below?_eq_some_iff
      rintro _ _ _ _ ⟨rfl, _⟩ ⟨index, rest, rfl, _⟩
      exact List.nil_lt_cons _ _

end ListsInOrder

/-! ## Counting -/

namespace Node

theorem length_flatMap_walkFrom {depth : Nat} {nodes : List Node}
    (each : ∀ child ∈ nodes, (child.walkFrom depth).length =
      1 + ((child.walkFrom depth).map Visit.childCount).sum) :
    (nodes.flatMap (walkFrom depth)).length =
      nodes.length + ((nodes.flatMap (walkFrom depth)).map Visit.childCount).sum := by
  induction nodes with
  | nil => rfl
  | cons node nodes ih =>
      obtain ⟨here, behind⟩ := List.forall_mem_cons.mp each
      have later := ih behind
      simp only [List.flatMap_cons, List.length_append, List.map_append, List.sum_append,
        List.length_cons]
      omega

theorem length_walkFrom (node : Node) (depth : Nat) :
    (node.walkFrom depth).length = 1 + ((node.walkFrom depth).map Visit.childCount).sum := by
  induction node using induction_on_children generalizing depth with
  | step node ih =>
      have below := length_flatMap_walkFrom fun child member => ih child member (depth + 1)
      rw [walkFrom_eq, List.length_cons, below, List.map_cons, List.sum_cons, visit]
      exact Nat.add_comm _ 1

end Node

/-! ## Texts -/

/-- What is left of a visit when only names keep their texts, and the depth is forgotten. -/
structure Outline where
  label : String
  tokenLiteral : String
  childCount : Nat
  name? : Option String
  deriving DecidableEq, Repr

def Visit.outline (visit : Visit) : Outline where
  label := visit.label
  tokenLiteral := visit.tokenLiteral
  childCount := visit.childCount
  name? := if visit.label = "Identifier" then some visit.text else none

namespace Outline

/-- The text of a node from those of its children. -/
def textFrom (outline : Outline) (parts : List String) : String :=
  match outline.label with
  | "LetStatement" =>
      outline.tokenLiteral ++ " " ++ parts[0]?.getD "" ++ " = " ++ parts[1]?.getD "" ++ ";"
  | "ReturnStatement" => outline.tokenLiteral ++ " " ++ parts[0]?.getD "" ++ ";"
  | "ExpressionStatement" => parts[0]?.getD ""
  | "Program" => parts.foldr (fun part text => part ++ text) ""
  | _ => outline.name?.getD ""

/-- From the last outline to the first: the texts of all of them, and the texts of the trees that no
node in front has claimed. -/
def foldBack : List Outline → List String × List String
  | [] => ([], [])
  | outline :: outlines =>
      let behind := foldBack outlines
      let text := outline.textFrom (behind.2.take outline.childCount)
      (text :: behind.1, text :: behind.2.drop outline.childCount)

end Outline

namespace Node

theorem textFrom_outline (node : Node) (depth : Nat) :
    (node.visit depth).outline.textFrom (node.children.map text) = node.text := by
  cases node with
  | identifier _ => rfl
  | statement statement =>
      cases statement with
      | letBinding _ _ value => cases value <;> rfl
      | returning _ value | expression _ value => cases value <;> rfl
  | program program =>
      simp [visit, Visit.outline, Outline.textFrom, label, children, text, Program.text,
        List.foldr_map]

/-- These visits fold back to their own texts and to those of the roots, before any others. -/
def FoldsBack (visits : List Visit) (roots : List String) : Prop :=
  ∀ behind : List Outline, Outline.foldBack (visits.map Visit.outline ++ behind) =
    (visits.map Visit.text ++ (Outline.foldBack behind).1, roots ++ (Outline.foldBack behind).2)

theorem foldsBack_flatMap_walkFrom {depth : Nat} {nodes : List Node}
    (each : ∀ child ∈ nodes, FoldsBack (child.walkFrom depth) [child.text]) :
    FoldsBack (nodes.flatMap (walkFrom depth)) (nodes.map text) := by
  induction nodes with
  | nil => exact fun _ => rfl
  | cons node nodes ih =>
      obtain ⟨here, later⟩ := List.forall_mem_cons.mp each
      intro behind
      rw [List.flatMap_cons, List.map_append, List.append_assoc, here, ih later]
      simp

theorem foldsBack_walkFrom (node : Node) (depth : Nat) :
    FoldsBack (node.walkFrom depth) [node.text] := by
  induction node using induction_on_children generalizing depth with
  | step node ih =>
      have below := foldsBack_flatMap_walkFrom fun child member => ih child member (depth + 1)
      intro behind
      have arity : (node.visit depth).outline.childCount = (node.children.map text).length :=
        (List.length_map _).symm
      rw [walkFrom_eq, List.map_cons, List.cons_append, Outline.foldBack, below behind, arity]
      simp only [List.take_left, List.drop_left, textFrom_outline, List.map_cons, List.cons_append,
        List.nil_append]
      rfl

theorem tokenLiteral_eq_first_child (program : Program) :
    program.tokenLiteral =
      (((Node.program program).walk.find? fun visit => visit.depth == 1).map
        Visit.tokenLiteral).getD "" := by
  obtain ⟨statements⟩ := program
  rw [walk, walkFrom_eq]
  cases statements with
  | nil => rfl
  | cons first statements =>
      rw [children, List.map_cons, List.flatMap_cons, walkFrom_eq 1 (.statement first)]
      rfl

/-- A walk and the texts describe one tree. -/
theorem walk_describes (node : Node) :
    ListsInOrder (fun path below => node.below? path = some below) 0 node.walk ∧
      node.walk.length = 1 + (node.walk.map Visit.childCount).sum ∧
      Outline.foldBack (node.walk.map Visit.outline) = (node.walk.map Visit.text, [node.text]) ∧
      ∀ program : Program, program.tokenLiteral =
        (((Node.program program).walk.find? fun visit => visit.depth == 1).map
          Visit.tokenLiteral).getD "" := by
  have folded := foldsBack_walkFrom node 0 []
  simp only [List.append_nil, Outline.foldBack] at folded
  exact ⟨ListsInOrder.walkFrom node 0, length_walkFrom node 0, folded, tokenLiteral_eq_first_child⟩

end Node

end MonkeySource
