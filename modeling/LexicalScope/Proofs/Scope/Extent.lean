import LexicalScope.Proofs.StatementTree.Descent
import LexicalScope.Scope.Binder

/-!
# The extents of regions

Which statements a region surrounds is decided by what opens it: a procedure, a statement with all
that is below it, the sections of a switch, or one link of a chain of `if`s.
-/

namespace LexicalScope

namespace StatementTree

/-- A statement is the link of a number in the chain of `if`s that starts at `head`; each further
link is the alternative of the one before. -/
inductive IsLink (tree : StatementTree) (head : StatementId) : Nat → StatementId → Prop
  | head : tree.kind? (some head) = some .branch → IsLink tree head 0 head
  | next {number link condition thenBody alternative} : IsLink tree head number link →
      tree.content? (some link) = some (.branch condition thenBody (some alternative)) →
      tree.kind? (some alternative) = some .branch → IsLink tree head (number + 1) alternative

/-- An `if` has an `else if` or stands in the place of one. -/
def IsChained (tree : StatementTree) (link : StatementId) : Prop :=
  ∃ upper lower condition thenBody,
    tree.content? (some upper) = some (.branch condition thenBody (some lower)) ∧
    tree.kind? (some lower) = some .branch ∧ (link = upper ∨ link = lower)

/-- A statement is the body of the alternative of a number: the first branch of a link of a chain,
what the last link has for its alternative, or a section of a switch. -/
inductive IsAlternative (tree : StatementTree) (conditional : StatementId) :
    Nat → StatementId → Prop
  | link {number link condition thenBody elseBody} : tree.IsLink conditional number link →
      tree.content? (some link) = some (.branch condition (some thenBody) elseBody) →
      IsAlternative tree conditional number thenBody
  | last {number link condition thenBody elseBody} : tree.IsLink conditional number link →
      tree.content? (some link) = some (.branch condition thenBody (some elseBody)) →
      tree.kind? (some elseBody) ≠ some .branch →
        IsAlternative tree conditional (number + 1) elseBody
  | switchSection {number subject sections body} :
      tree.content? (some conditional) = some (.switch subject sections) →
      sections[number]? = some (some body) → IsAlternative tree conditional number body

end StatementTree

/-- A tag says of an alternative which one it is. Its exits are those of the body if the conditional
is an `if`. -/
structure BranchTag.Fits (tree : StatementTree) (tag : BranchTag)
    (conditional body : StatementId) : Prop where
  conditional_eq : tag.conditional = some conditional
  alternative : tree.IsAlternative conditional tag.index body
  span_eq : tag.conditionalSpan = tree.span (some conditional)
  exits : tree.kind? (some conditional) = some .branch → tag.exits = true →
    ∃ limit, tree.alwaysExits true limit (some body) = true

namespace Region

/-- What of a region never changes once it is open. -/
def shape (region : Region) : Region :=
  { region with children := #[], table := #[], declarations := #[] }

/-- A region is opened by a link of the chain that its own tag names. -/
def OpensLink (tree : StatementTree) (region : Region) (link : StatementId) : Prop :=
  region.kind = .branch ∧ ∃ tag head number, region.branch = some tag ∧
    tag.conditional = some head ∧ tree.IsLink head number link

/-- A region surrounds a statement. The region of a link holds the link itself, whose only
expressions are those of its condition, and its first branch; that of a switch holds the sections
but not the subject. -/
def Surrounds (tree : StatementTree) (region : Region) (statement : StatementId) : Prop :=
  region.kind = .root ∨ ∃ boundary, region.boundary = some boundary ∧
    match region.kind with
    | .root => True
    | .switch => tree.IsBelow statement boundary
    | .branch =>
      (region.OpensLink tree boundary ∧ (statement = boundary ∨
        ∃ condition thenBody elseBody, tree.content? (some boundary) =
          some (.branch condition (some thenBody) elseBody) ∧ tree.IsWithin statement thenBody)) ∨
      (¬ region.OpensLink tree boundary ∧ tree.IsWithin statement boundary)
    | .block | .loop | .resource | .switchSection => tree.IsWithin statement boundary

/-- How a region inside that of the procedure has come about: its boundary exists, its span is that
of the boundary, for a link up to the end of the first branch, and its tag is that of an alternative
around it. -/
structure Origin (tree : StatementTree) (region : Region) : Prop where
  notRoot : region.kind ≠ .root
  switch : ∀ boundary, region.boundary = some boundary → region.kind = .switch →
    tree.kind? (some boundary) = some .switch
  boundary : ∃ boundary node, region.boundary = some boundary ∧
    tree.statement? (some boundary) = some node
  span : ∀ boundary, region.boundary = some boundary → ¬ region.OpensLink tree boundary →
    region.span = tree.span (some boundary)
  link : ∀ boundary, region.boundary = some boundary → region.OpensLink tree boundary →
    ∃ condition thenBody elseBody, tree.content? (some boundary) =
        some (.branch condition (some thenBody) elseBody) ∧
      region.span = ⟨(tree.span (some boundary)).start,
        max (tree.span (some thenBody)).stop (tree.span (some boundary)).start⟩
  tag : ∀ tag, region.branch = some tag → ∃ conditional body, tag.Fits tree conditional body ∧
    ∀ statement, region.Surrounds tree statement ∨ region.boundary = some statement →
      tree.IsWithin statement body ∨
        (tree.IsLink conditional tag.index statement ∧ tree.IsChained statement)

namespace Origin

variable {tree : StatementTree} {region : Region} {boundary statement : StatementId}

theorem span_start (origin : region.Origin tree) (isBoundary : region.boundary = some boundary) :
    region.span.start = (tree.span (some boundary)).start := by
  by_cases opensLink : region.OpensLink tree boundary
  · obtain ⟨_, _, _, _, isSpan⟩ := origin.link boundary isBoundary opensLink
    rw [isSpan]
  · rw [origin.span boundary isBoundary opensLink]

/-- What a region surrounds lies within its boundary. -/
theorem within_boundary (origin : region.Origin tree) (proper : tree.Proper)
    (isBoundary : region.boundary = some boundary) (surrounds : region.Surrounds tree statement) :
    tree.IsWithin statement boundary := by
  obtain ⟨known, isKnown, extent⟩ := surrounds.resolve_left origin.notRoot
  obtain rfl := Option.some.inj (isBoundary.symm.trans isKnown)
  cases kind : region.kind with
  | root => exact absurd kind origin.notRoot
  | switch =>
      rw [kind] at extent
      exact extent.2
  | branch =>
      rw [kind] at extent
      rcases extent with ⟨_, rfl | ⟨condition, thenBody, elseBody, content, within⟩⟩ | ⟨_, within⟩
      · exact .refl _
      · obtain ⟨node, found, isContent⟩ := Option.map_eq_some_iff.mp content
        refine within.under_parent (proper.parent_of_child found ?_)
        rw [isContent]
        cases elseBody <;> exact List.mem_cons_self
      · exact within
  | block | loop | resource | switchSection =>
      rw [kind] at extent
      exact extent

end Origin

end Region

namespace ScopeTree

/-- A region is another one or lies inside it. -/
def IsWithin (scopes : ScopeTree) (inner outer : RegionId) : Prop :=
  Under (fun id => scopes.parent (some id)) inner outer

/-- The region of a number surrounds a statement. -/
def Surrounds (scopes : ScopeTree) (tree : StatementTree) (id : RegionId)
    (statement : StatementId) : Prop :=
  ∃ region, scopes.region? (some id) = some region ∧ region.Surrounds tree statement

/-- A region is the site of a statement: the regions around it are those that surround the
statement. -/
def IsSite (scopes : ScopeTree) (tree : StatementTree) (id : RegionId)
    (statement : StatementId) : Prop :=
  ∀ outer : RegionId, outer.index < scopes.regions.size →
    (scopes.IsWithin id outer ↔ scopes.Surrounds tree outer statement)

end ScopeTree

end LexicalScope
