import LexicalScope.Proofs.Scope.Entries
import LexicalScope.Proofs.StatementTree.Unbraced

/-!
# Sketches of scope trees

Binding opens regions, leaves them and declares names. Replaying these events builds a sketch of the
scope tree. No statement and no offset comes up in a sketch: an alternative gives the number of its
conditional, and a region those of the conditionals that are over where it opens.
-/

namespace LexicalScope

/-- Whether a statement of the kind runs one of its parts: it is an `if` or a switch. -/
def StatementKind.isFork : StatementKind → Bool
  | .branch | .switch => true
  | _ => false

/-- A place in a procedure, by the forks before and around it. -/
structure ForkPlace where
  /-- The number of forks that begin before the place. -/
  forks : Nat
  /-- The numbers of the forks around the place, from the inside out. -/
  around : List Nat
deriving DecidableEq, Repr

namespace ForkPlace

/-- The place inside a fork that begins here. -/
def inside (place : ForkPlace) : ForkPlace := ⟨place.forks + 1, place.forks :: place.around⟩

/-- The place behind something that holds a number of forks. -/
def behind (place : ForkPlace) (forks : Nat) : ForkPlace :=
  { place with forks := place.forks + forks }

/-- The forks that are over at a place. -/
def past (place : ForkPlace) : List Nat := (List.range place.forks).filter (· ∉ place.around)

theorem mem_past {place : ForkPlace} {fork : Nat} :
    fork ∈ place.past ↔ fork < place.forks ∧ fork ∉ place.around := by
  simp [past]

end ForkPlace

/-- An alternative of a fork. -/
structure Alternative where
  /-- The number of the fork. -/
  fork : Nat
  /-- The number of the alternative. -/
  index : Nat
  /-- Whether every path through the alternative leaves the fork early. -/
  exits : Bool
deriving DecidableEq, Repr

/-- What happens in the course of binding. -/
inductive ScopeEvent where
  /-- A region opens where some forks are over. -/
  | opened (kind : RegionKind) (past : List Nat) (branch : Option Alternative)
  /-- The innermost open region is left. -/
  | left
  /-- A name is declared so many unbraced bodies below the boundary of its region. -/
  | declared (name : String) (kind : DeclarationKind) (bleedDepth : Nat)
deriving DecidableEq, Repr

/-- What a sketch shows of a region. -/
structure RegionSketch where
  kind : RegionKind
  parent : RegionRef
  depth : Nat
  /-- The forks that are over where the region opens. -/
  past : List Nat
  branch : Option Alternative
deriving DecidableEq, Repr

/-- What a sketch shows of a declaration. -/
structure DeclarationSketch where
  name : String
  kind : DeclarationKind
  region : RegionRef
  bleedDepth : Nat
deriving DecidableEq, Repr

/-- The regions and declarations so far, and the regions that are open. -/
structure Sketch where
  regions : Array RegionSketch
  declarations : Array DeclarationSketch
  /-- The regions around the innermost open one, from the inside out. -/
  around : List RegionRef
  current : RegionRef
deriving DecidableEq, Repr

namespace Sketch

/-- The sketch of nothing. -/
def blank : Sketch := ⟨#[], #[], [], none⟩

/-- What an event does to a sketch. -/
def play (sketch : Sketch) : ScopeEvent → Sketch
  | .opened kind past branch =>
    let depth :=
      match sketch.current.bind fun parent => sketch.regions[parent.index]? with
      | some parent => parent.depth + 1
      | none => 0
    { sketch with
      regions := sketch.regions.push ⟨kind, sketch.current, depth, past, branch⟩
      around := sketch.current :: sketch.around
      current := some ⟨sketch.regions.size⟩ }
  | .left => { sketch with current := sketch.around.head?.join, around := sketch.around.tail }
  | .declared name kind bleedDepth =>
    { sketch with
      declarations := sketch.declarations.push ⟨name, kind, sketch.current, bleedDepth⟩ }

/-- What one event after the other does to a sketch. -/
def replay (sketch : Sketch) (events : List ScopeEvent) : Sketch := events.foldl play sketch

theorem replay_cons (sketch : Sketch) (event : ScopeEvent) (events : List ScopeEvent) :
    sketch.replay (event :: events) = (sketch.play event).replay events := rfl

theorem replay_append (sketch : Sketch) (first second : List ScopeEvent) :
    sketch.replay (first ++ second) = (sketch.replay first).replay second :=
  List.foldl_append

end Sketch

/-! ## Forks of a statement tree -/

namespace StatementTree

/-- Whether a statement is a fork. -/
def isFork (tree : StatementTree) (statement : StatementId) : Bool :=
  (tree.kind? (some statement)).any StatementKind.isFork

/-- The number of forks before an index. -/
def forksBefore (tree : StatementTree) (index : Nat) : Nat :=
  (List.range index).countP fun i => tree.isFork ⟨i⟩

/-- The numbers of the forks among a statement and those around it. -/
def forksAround (tree : StatementTree) (ref : StatementRef) : List Nat :=
  ((tree.chain tree.statements.size ref).filter tree.isFork).map fun fork =>
    tree.forksBefore fork.index

/-- The place of an index directly below a statement. -/
def placeBelow (tree : StatementTree) (parent : StatementRef) (index : Nat) : ForkPlace :=
  ⟨tree.forksBefore index, tree.forksAround parent⟩

/-- The place of a statement. -/
def place (tree : StatementTree) (statement : StatementId) : ForkPlace :=
  tree.placeBelow (tree.parent (some statement)) statement.index

variable {tree : StatementTree} {index : Nat} {node : StatementNode}

theorem isFork_eq (found : tree.statement? (some ⟨index⟩) = some node) :
    tree.isFork ⟨index⟩ = node.kind.isFork := by
  rw [isFork, kind?_eq found, Option.any_some]

theorem place_eq (found : tree.statement? (some ⟨index⟩) = some node) :
    tree.place ⟨index⟩ = tree.placeBelow node.parent index := by
  rw [place, parent_eq found]

theorem place_root (noParent : tree.parent (some ⟨0⟩) = none) : tree.place ⟨0⟩ = ⟨0, []⟩ := by
  rw [place, noParent, placeBelow, forksAround]
  cases tree.statements.size <;> rfl

theorem forksBefore_succ (tree : StatementTree) (index : Nat) :
    tree.forksBefore (index + 1) =
      tree.forksBefore index + if tree.isFork ⟨index⟩ then 1 else 0 := by
  rw [forksBefore, List.range_succ, List.countP_append, List.countP_singleton, forksBefore]

theorem Proper.forksAround_some (proper : tree.Proper)
    (found : tree.statement? (some ⟨index⟩) = some node) :
    tree.forksAround (some ⟨index⟩) =
      if node.kind.isFork then tree.forksBefore index :: tree.forksAround node.parent
      else tree.forksAround node.parent := by
  have inTree : index < tree.statements.size := (Array.getElem?_eq_some_iff.mp found).1
  rw [forksAround, proper.chain_eq inTree, parent_eq found, List.filter_cons, isFork_eq found]
  split <;> rfl

/-- Behind its head, the place below a fork is the one inside it. -/
theorem Proper.placeBelow_of_fork (proper : tree.Proper)
    (found : tree.statement? (some ⟨index⟩) = some node) (fork : node.kind.isFork = true) :
    tree.placeBelow (some ⟨index⟩) (index + 1) = (tree.place ⟨index⟩).inside := by
  rw [place_eq found, placeBelow, forksBefore_succ, isFork_eq found,
    proper.forksAround_some found, if_pos fork, if_pos fork]
  rfl

theorem Proper.placeBelow_of_plain (proper : tree.Proper)
    (found : tree.statement? (some ⟨index⟩) = some node) (plain : node.kind.isFork = false) :
    tree.placeBelow (some ⟨index⟩) (index + 1) = tree.place ⟨index⟩ := by
  have noFork : ¬ node.kind.isFork = true := by simp [plain]
  rw [place_eq found, placeBelow, forksBefore_succ, isFork_eq found,
    proper.forksAround_some found, if_neg noFork, if_neg noFork]
  rfl

end StatementTree

/-! ## Sketches of binders -/

/-- The tag with the number of its conditional. -/
def BranchTag.alternative (tree : StatementTree) (tag : BranchTag) : Alternative :=
  ⟨tag.conditional.elim 0 fun conditional => tree.forksBefore conditional.index, tag.index,
    tag.exits⟩

/-- The sketch of a region. -/
def Region.sketch (tree : StatementTree) (region : Region) : RegionSketch :=
  ⟨region.kind, region.parent, region.depth,
    region.boundary.elim [] fun boundary => (tree.place boundary).past,
    region.branch.map (·.alternative tree)⟩

/-- The sketch of a declaration. -/
def Declaration.sketch (declaration : Declaration) : DeclarationSketch :=
  ⟨declaration.name, declaration.kind, declaration.region, declaration.bleedDepth⟩

namespace Region

@[simp] theorem sketch_addChild (tree : StatementTree) (region : Region) (id : RegionId) :
    (region.addChild id).sketch tree = region.sketch tree := rfl

@[simp] theorem sketch_addDeclaration (tree : StatementTree) (region : Region) (name : String)
    (id : DeclarationId) : (region.addDeclaration name id).sketch tree = region.sketch tree := by
  unfold addDeclaration
  split <;> rfl

end Region

theorem map_modify_of_same {Element Shown : Type} {change : Element → Element}
    {shown : Element → Shown} (same : ∀ element, shown (change element) = shown element)
    (elements : Array Element) (index : Nat) :
    (elements.modify index change).map shown = elements.map shown := by
  refine Array.ext_getElem? fun i => ?_
  rw [Array.getElem?_map, Array.getElem?_map, Array.getElem?_modify]
  split
  · cases elements[i]? <;> simp [same]
  · rfl

namespace Binder

variable {tree : StatementTree} {binder : Binder}

/-- The sketch of a scope tree under construction. -/
def sketch (tree : StatementTree) (binder : Binder) : Sketch :=
  ⟨binder.regions.map (Region.sketch tree), binder.declarations.map Declaration.sketch,
    binder.enclosing.map EnclosingRegion.region, binder.current⟩

@[simp] theorem sketch_blank (settings : ScopeSettings) (statements expressions : Nat) :
    (blank settings statements expressions).sketch tree = .blank := by
  simp [sketch, blank, Sketch.blank]

theorem sketch_enter (kind : RegionKind) (statement : StatementId) (span : Span)
    (branch : Option BranchTag) : (binder.enter kind (some statement) span branch).sketch tree =
      (binder.sketch tree).play
        (.opened kind (tree.place statement).past (branch.map (·.alternative tree))) := by
  unfold sketch enter
  cases binder.current with
  | none => simp [Sketch.play, Region.sketch, Region.opened]
  | some parent =>
      simp only [Sketch.play, map_modify_of_same (Region.sketch_addChild tree · _), Array.map_push,
        Array.size_map, Option.bind_some, Array.getElem?_map]
      cases binder.regions[parent.index]? <;> rfl

theorem sketch_leave : binder.leave.sketch tree = (binder.sketch tree).play .left := by
  unfold sketch leave
  cases binder.enclosing <;> rfl

theorem sketch_declare (name : String) (kind : DeclarationKind) (span : Span)
    (statement : StatementRef) (expression : ExpressionRef) :
    (binder.declare name kind span statement expression).sketch tree =
      (binder.sketch tree).play (.declared name kind binder.bleedDepth) := by
  unfold sketch declare
  cases binder.current with
  | none => simp [Sketch.play, Declaration.sketch]
  | some region =>
      simp only [Sketch.play, map_modify_of_same (Region.sketch_addDeclaration tree · _ _),
        Array.map_push, Declaration.sketch]

@[simp] theorem sketch_recordStatement (statement : StatementRef) (region : RegionRef) :
    (binder.recordStatement statement region).sketch tree = binder.sketch tree := by
  cases statement <;> rfl

@[simp] theorem sketch_recordExpression (expression : ExpressionRef) :
    (binder.recordExpression tree expression).sketch tree = binder.sketch tree := by
  cases expression <;> rfl

end Binder

end LexicalScope
