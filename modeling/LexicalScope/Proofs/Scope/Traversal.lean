import LexicalScope.Proofs.Scope.Openings
import LexicalScope.Proofs.Scope.Sites

/-!
# Walks over statements

A relation between the binders before and after statements are visited holds of every visit if it
holds of its parts: of headers, of siblings one after the other, and of the three ways in which
regions are opened, by a statement, by a link of a chain, and around a branch without braces.
-/

namespace LexicalScope

/-- Statements are children of one statement, in its order. -/
def StatementTree.AreSiblings (tree : StatementTree) (refs : List StatementRef) : Prop :=
  ∃ id node, tree.statement? (some id) = some node ∧
    refs.Sublist (node.content.children.map (·.1))

/-- The text from the start of a link to the end of its first branch. -/
def StatementTree.linkSpan (tree : StatementTree) (start : Nat) (thenBody : StatementRef) : Span :=
  ⟨start, max (tree.span thenBody).stop start⟩

namespace StatementTree

variable {tree : StatementTree} {id inner : StatementId} {node : StatementNode}
  {ref : StatementRef} {refs others : List StatementRef}

theorem isAmong_append :
    tree.IsAmong (refs ++ others) inner ↔ tree.IsAmong refs inner ∨ tree.IsAmong others inner := by
  simp only [IsAmong, List.mem_append, or_and_right, exists_or]

theorem areSiblings_children (found : tree.statement? (some id) = some node) :
    tree.AreSiblings (node.content.children.map (·.1)) :=
  ⟨id, node, found, .refl _⟩

theorem AreSiblings.sublist (siblings : tree.AreSiblings refs) (sublist : others.Sublist refs) :
    tree.AreSiblings others := by
  obtain ⟨id, node, found, listed⟩ := siblings
  exact ⟨id, node, found, sublist.trans listed⟩

theorem AreSiblings.exists_of_mem (siblings : tree.AreSiblings refs) (proper : tree.Proper)
    (member : ref ∈ refs) : ∃ id, ref = some id := by
  obtain ⟨_, _, found, listed⟩ := siblings
  obtain ⟨id, _, same, _⟩ := proper.exists_of_child found (listed.subset member)
  exact ⟨id, same⟩

theorem AreSiblings.apart (siblings : tree.AreSiblings (refs ++ others)) (proper : tree.Proper)
    (inRefs : tree.IsAmong refs inner) : ¬ tree.IsAmong others inner := by
  rintro ⟨right, rightMember, inRight⟩
  obtain ⟨left, leftMember, inLeft⟩ := inRefs
  obtain ⟨_, _, found, listed⟩ := siblings
  obtain rfl := proper.child_unique found (listed.subset (List.mem_append_left _ leftMember))
    (listed.subset (List.mem_append_right _ rightMember)) inLeft inRight
  exact List.disjoint_of_nodup_append ((proper.distinct found).sublist listed) leftMember
    rightMember

end StatementTree

namespace Binder

/-- Between two binders there are only declarations and expressions. -/
structure Idles (before after : Binder) : Prop where
  stays : before.Stays after
  statements : after.statementRegions = before.statementRegions
  boundaries : after.boundaryRegions = before.boundaryRegions

theorem Idles.refl (binder : Binder) : binder.Idles binder := ⟨.refl binder, rfl, rfl⟩

theorem preserved_idles (before : Binder) (tree : StatementTree) :
    Bind.HeaderPreserved tree before.Idles where
  declare name kind span statement expression idles :=
    ⟨(before.preserved_stays tree).declare name kind span statement expression idles.stays,
      idles.statements, idles.boundaries⟩
  recordExpression expression idles := by
    refine ⟨(before.preserved_stays tree).recordExpression expression idles.stays, ?_, ?_⟩ <;>
      cases expression
    exacts [idles.statements, idles.statements, idles.boundaries, idles.boundaries]

end Binder

namespace Bind

/-- Relations between the binders before and after a list of statements is visited, and before and
after what a statement consists of is bound, that hold of the whole if they hold of the parts. -/
structure Composes (tree : StatementTree) (visited : List StatementRef → Binder → Binder → Prop)
    (filled : StatementId → Binder → Binder → Prop) : Prop where
  idle : ∀ {before after}, before.Idles after → visited [] before after
  append : ∀ {refs others before middle after}, tree.AreSiblings (refs ++ others) →
    visited refs before middle → visited others middle after → visited (refs ++ others) before after
  record : ∀ {id node before after}, tree.statement? (some id) = some node →
    filled id (before.recordStatement (some id) before.current) after →
      visited [some id] before after
  bleed : ∀ {id before after} (depth : Nat), filled id { before with bleedDepth := depth } after →
    filled id before { after with bleedDepth := before.bleedDepth }
  children : ∀ {id node before after}, tree.statement? (some id) = some node →
    visited (node.content.children.map (·.1)) before after → filled id before after
  own : ∀ {id node before middle after} (kind : RegionKind) (branch : Option BranchTag),
    tree.statement? (some id) = some node → visited [] before middle →
      visited (node.content.children.map (·.1)) (middle.enter kind (some id) node.span branch)
        after → filled id before after.leave
  link : ∀ {id node thenBody others before middle after} (branch : Option BranchTag),
    tree.statement? (some id) = some node →
      node.content.children.map (·.1) = some thenBody :: others →
      visited [some thenBody] (before.enter .branch (some id)
        (tree.linkSpan node.span.start (some thenBody)) branch) middle →
      visited others middle.leave after → filled id before after
  around : ∀ {id node before after} (branch : Option BranchTag),
    tree.statement? (some id) = some node →
      visited [some id] (before.enter .branch (some id) node.span branch) after →
      visited [some id] before (after.leave.recordStatement (some id) before.current)

/-- Visits that succeed are related. -/
structure Walks (tree : StatementTree) (visited : List StatementRef → Binder → Binder → Prop)
    (visit : Visit → Bind Unit) : Prop where
  statement : ∀ (id : StatementId) (position : Position) (branch : Option BranchTag),
    Relates (visited [some id]) (visit (.statement (some id) position branch))
  link : ∀ {id : StatementId} (head : StatementRef) (span : Span) (index : Nat),
    tree.kind? (some id) = some .branch →
      Relates (visited [some id]) (visit (.link head span index (some id)))

variable {tree : StatementTree} {visited : List StatementRef → Binder → Binder → Prop}
  {filled : StatementId → Binder → Binder → Prop} {relation : Binder → Binder → Prop}
  {visit : Visit → Bind Unit} {id : StatementId} {node : StatementNode} {span : Span}
  {branch : Option BranchTag} {step next : Bind Unit} {refs others : List StatementRef}

/-! ## Steps -/

theorem Relates.find {ref : StatementRef} {next : StatementNode → Bind Unit}
    (relates : ∀ node, tree.statement? ref = some node → Relates relation (next node)) :
    Relates relation (Bind.find tree ref >>= next) := by
  intro before _ after succeeded
  obtain ⟨node, between, looked, continued⟩ := Step.bind_eq_ok.mp succeeded
  obtain ⟨found, rfl⟩ := find_eq_ok.mp looked
  exact relates node found _ _ _ continued

theorem Relates.branchTag {conditional body : StatementRef} {index : Nat} {breakExits : Bool}
    {next : BranchTag → Bind Unit} (relates : ∀ tag, Relates relation (next tag)) :
    Relates relation (Bind.branchTag tree conditional index body span breakExits >>= next) := by
  intro before _ after succeeded
  obtain ⟨tag, between, looked, continued⟩ := Step.bind_eq_ok.mp succeeded
  obtain ⟨_, rfl⟩ := branchTag_eq_ok.mp looked
  exact relates tag _ _ _ continued

namespace Composes

variable (composes : Composes tree visited filled)
include composes

theorem pure : Relates (visited []) (Pure.pure ()) := by
  intro before _ after succeeded
  obtain ⟨_, rfl⟩ := Step.pure_eq_ok.mp succeeded
  exact composes.idle (.refl before)

theorem header {change : Binder → Binder}
    (keeps : ∀ {property : Binder → Prop}, HeaderPreserved tree property →
      ∀ {binder : Binder}, property binder → property (change binder)) :
    Relates (visited []) (Bind.apply change) := by
  intro before _ after succeeded
  obtain rfl := apply_eq_ok.mp succeeded
  exact composes.idle (keeps (before.preserved_idles tree) (.refl before))

theorem seq (siblings : tree.AreSiblings (refs ++ others)) (first : Relates (visited refs) step)
    (second : Relates (visited others) next) :
    Relates (visited (refs ++ others)) (do step; next) := by
  intro before _ after succeeded
  obtain ⟨_, between, stepped, continued⟩ := Step.bind_eq_ok.mp succeeded
  exact composes.append siblings (first _ _ _ stepped) (second _ _ _ continued)

theorem behind (siblings : tree.AreSiblings refs) {change : Binder → Binder}
    (keeps : ∀ {property : Binder → Prop}, HeaderPreserved tree property →
      ∀ {binder : Binder}, property binder → property (change binder))
    (relates : Relates (visited refs) next) :
    Relates (visited refs) (do Bind.apply change; next) :=
  composes.seq (List.nil_append refs ▸ siblings) (composes.header keeps) relates

theorem ofChildren (found : tree.statement? (some id) = some node)
    (relates : Relates (visited (node.content.children.map (·.1))) step) :
    Relates (filled id) step := fun _ _ _ succeeded =>
  composes.children found (relates _ _ _ succeeded)

private theorem ofRegion {kind : RegionKind} (found : tree.statement? (some id) = some node)
    (relates : Relates (visited (node.content.children.map (·.1))) step) :
    Relates (filled id) (inRegion kind (some id) node.span branch step) := by
  intro before _ after succeeded
  obtain ⟨inside, stepped, rfl⟩ := inRegion_eq_ok.mp succeeded
  exact composes.own kind branch found (composes.idle (.refl before)) (relates _ _ _ stepped)

private theorem ofLink {thenBody : StatementId} (found : tree.statement? (some id) = some node)
    (children : node.content.children.map (·.1) = some thenBody :: others)
    (first : Relates (visited [some thenBody]) step) (behind : Relates (visited others) next) :
    Relates (filled id) (do
      inRegion .branch (some id) (tree.linkSpan node.span.start (some thenBody)) branch step
      next) := by
  intro before _ after succeeded
  obtain ⟨_, between, entered, continued⟩ := Step.bind_eq_ok.mp succeeded
  obtain ⟨inside, stepped, rfl⟩ := inRegion_eq_ok.mp entered
  exact composes.link branch found children (first _ _ _ stepped) (behind _ _ _ continued)

end Composes

/-! ## Statements -/

namespace Walks

variable (walks : Walks tree visited visit) (composes : Composes tree visited filled)
  (proper : tree.Proper)
include walks

theorem child (proper : tree.Proper) (siblings : tree.AreSiblings [ref]) (position : Position)
    (branch : Option BranchTag) :
    Relates (visited [ref]) (visit (.statement ref position branch)) := by
  obtain ⟨id, rfl⟩ := siblings.exists_of_mem proper (List.mem_singleton_self _)
  exact walks.statement id position branch

include composes proper

theorem bindMembers (siblings : tree.AreSiblings refs) :
    Relates (visited refs) (Bind.bindMembers visit refs) := by
  induction refs with
  | nil => exact composes.pure
  | cons first rest induction =>
      have alone : tree.AreSiblings [first] :=
        siblings.sublist (List.singleton_sublist.mpr List.mem_cons_self)
      have others := induction (siblings.sublist (List.sublist_cons_self _ _))
      have siblings : tree.AreSiblings ([first] ++ rest) := siblings
      exact composes.seq siblings (walks.child proper alone .member none) others

private theorem bindSections (siblings : tree.AreSiblings refs) (switch : StatementRef)
    (index : Nat) :
    Relates (visited refs) (Bind.bindSections tree visit switch span index refs) := by
  induction refs generalizing index with
  | nil => exact composes.pure
  | cons first rest induction =>
      have alone : tree.AreSiblings [first] :=
        siblings.sublist (List.singleton_sublist.mpr List.mem_cons_self)
      have others := induction (siblings.sublist (List.sublist_cons_self _ _)) (index + 1)
      have siblings : tree.AreSiblings ([first] ++ rest) := siblings
      exact .branchTag fun tag =>
        composes.seq siblings (walks.child proper alone .member (some tag)) others

theorem bindBranch (siblings : tree.AreSiblings [ref]) (slot : BodySlot) (tag : BranchTag) :
    Relates (visited [ref]) (Bind.bindBranch tree visit ref slot tag) := by
  refine .find fun node found => ?_
  split
  next => exact walks.child proper siblings _ _
  next =>
    obtain ⟨id, rfl⟩ := siblings.exists_of_mem proper (List.mem_singleton_self _)
    intro before _ after succeeded
    obtain ⟨inside, entered, rfl⟩ := recordAround_eq_ok.mp succeeded
    obtain ⟨inside, stepped, rfl⟩ := inRegion_eq_ok.mp entered
    exact composes.around _ found (walks.statement _ _ _ _ _ _ stepped)

theorem bindLink (isBranch : tree.kind? (some id) = some .branch) (head : StatementRef)
    (index : Nat) : Relates (filled id) (Bind.bindLink tree visit head span index (some id)) := by
  refine .find fun node found => ?_
  obtain ⟨condition, thenRef, elseRef, content⟩ := exists_branch_of_kind
    (Option.some.inj ((StatementTree.kind?_eq found).symm.trans isBranch))
  have listed := List.mem_map_of_mem (f := (·.1)) (StatementTree.thenBody_mem_children content)
  obtain ⟨thenBody, _, rfl, _⟩ := proper.exists_of_child found listed
  have siblings := StatementTree.areSiblings_children found
  have inLink := composes.behind (siblings.sublist (List.singleton_sublist.mpr listed))
    (·.bindExpression condition) (walks.statement thenBody (.nested .thenBody) none)
  rw [content]
  refine .branchTag fun tag => ?_
  cases elseRef with
  | none => exact composes.ofLink found (by rw [content]; rfl) inLink composes.pure
  | some elseBody =>
      refine composes.ofLink found (by rw [content]; rfl) inLink
        (.find fun alternative isElse => ?_)
      split
      next isIf => exact walks.link _ _ _ (by rw [StatementTree.kind?_eq isElse, isIf])
      next =>
        exact .branchTag fun tag => walks.bindBranch composes proper
          (siblings.sublist (List.singleton_sublist.mpr (elseBody_listed content))) _ _

private theorem bindConditional {condition : ExpressionRef} {thenRef elseRef : StatementRef}
    (found : tree.statement? (some id) = some node)
    (content : node.content = .branch condition thenRef elseRef) :
    Relates (filled id)
      (Bind.bindConditional tree visit (some id) span condition thenRef elseRef) := by
  have siblings := StatementTree.areSiblings_children found
  have listed := List.mem_map_of_mem (f := (·.1)) (StatementTree.thenBody_mem_children content)
  have first : tree.AreSiblings [thenRef] :=
    siblings.sublist (List.singleton_sublist.mpr listed)
  cases elseRef with
  | none =>
      have children : node.content.children.map (·.1) = [thenRef] := by rw [content]; rfl
      refine composes.ofChildren found ?_
      rw [children]
      exact composes.behind first (·.bindExpression condition)
        (.branchTag fun tag => walks.child proper first _ _)
  | some elseBody =>
      have children : node.content.children.map (·.1) = [thenRef] ++ [some elseBody] := by
        rw [content]; rfl
      rw [children] at siblings
      have second : tree.AreSiblings [some elseBody] :=
        siblings.sublist (List.sublist_append_right _ _)
      unfold Bind.bindConditional
      rw [if_neg (by simp)]
      split
      next =>
        refine composes.ofChildren found ?_
        rw [children]
        exact composes.behind siblings (·.bindExpression condition) (.branchTag fun tag =>
          composes.seq siblings (walks.bindBranch composes proper first _ _)
            (.branchTag fun tag => walks.bindBranch composes proper second _ _))
      next =>
        refine walks.bindLink composes proper ?_ _ _
        rw [StatementTree.kind?_eq found, StatementNode.kind, content]
        rfl

private theorem bindContent (found : tree.statement? (some id) = some node) :
    Relates (filled id) (Bind.bindContent tree visit (some id) node.span branch node.content) := by
  have siblings := StatementTree.areSiblings_children found
  have listed : ∀ members : List StatementRef,
      (members.map fun member => (member, Position.member)).map (·.1) = members := by
    simp [Function.comp_def]
  obtain ⟨content, nodeSpan, parent⟩ := node
  cases content with
  | block members =>
      refine composes.ofRegion found ?_
      simp only [StatementContent.children, listed] at siblings ⊢
      exact walks.bindMembers composes proper siblings
  | branch condition thenRef elseRef => exact walks.bindConditional composes proper found rfl
  | whileLoop condition body =>
      exact composes.ofRegion found (composes.behind siblings (·.bindExpression condition)
        (walks.child proper siblings _ _))
  | doLoop body condition =>
      have around : tree.AreSiblings ([body] ++ []) := siblings
      exact composes.ofRegion found (composes.seq around (walks.child proper siblings _ _)
        (composes.header (·.bindExpression condition)))
  | forLoop declarators initializers condition incrementors body =>
      exact composes.ofRegion found (composes.behind siblings (·.bindDeclarators _ declarators)
        (composes.behind siblings (·.bindExpressions initializers)
        (composes.behind siblings (·.bindExpression condition)
        (composes.behind siblings (·.bindExpressions incrementors)
        (walks.child proper siblings _ _)))))
  | forEachLoop element collection body =>
      exact composes.ofRegion found (composes.behind siblings (·.declare _ _ _ _ _)
        (composes.behind siblings (·.bindExpression collection)
        (walks.child proper siblings _ _)))
  | resource declarators held body =>
      exact composes.ofRegion found (composes.behind siblings (·.bindDeclarators _ declarators)
        (composes.behind siblings (·.bindExpression held)
        (walks.child proper siblings _ _)))
  | switch subject sections =>
      -- the subject is bound before the region is entered
      intro before _ after succeeded
      obtain ⟨_, middle, bound, entered⟩ := Step.bind_eq_ok.mp succeeded
      obtain ⟨inside, stepped, rfl⟩ := inRegion_eq_ok.mp entered
      refine composes.own .switch branch found
        (composes.header (·.bindExpression subject) _ _ _ bound) ?_
      simp only [StatementContent.children, listed] at siblings ⊢
      exact walks.bindSections composes proper siblings _ _ _ _ _ stepped
  | switchSection labels members =>
      refine composes.ofRegion found ?_
      simp only [StatementContent.children, listed] at siblings ⊢
      exact composes.behind siblings (·.bindLabels _ labels)
        (walks.bindMembers composes proper siblings)
  | localDeclaration declarators =>
      exact composes.ofChildren found (composes.header (·.bindDeclarators _ declarators))
  | evaluation value | returning value | throwing value =>
      exact composes.ofChildren found (composes.header (·.bindExpression value))
  | labeled label body => exact composes.ofChildren found (walks.child proper siblings _ _)
  | breaking | continuing | empty => exact composes.ofChildren found composes.pure

end Walks

variable (composes : Composes tree visited filled) (proper : tree.Proper)
include composes proper

/-- Every visit is related, however many levels may still be nested. -/
theorem walks_visit (levels : Nat) : Walks tree visited (Bind.visit tree levels) := by
  induction levels with
  | zero =>
      -- without a level left no visit succeeds
      have fails : ∀ refs todo, Relates (visited refs) (Bind.visit tree 0 todo) := by
        rintro refs todo before value after ⟨⟩
      exact ⟨fun _ _ _ => fails _ _, fun _ _ _ _ => fails _ _⟩
  | succ levels induction =>
      constructor
      · intro id position branch
        refine .find fun node found => ?_
        intro before _ after succeeded
        obtain ⟨_, between, recorded, continued⟩ := Step.bind_eq_ok.mp succeeded
        obtain rfl := apply_eq_ok.mp recorded
        obtain ⟨depth, inside, stepped, _, rfl⟩ := withBleed_eq_ok.mp continued
        exact composes.record found (composes.bleed depth
          (induction.bindContent composes proper found _ _ _ stepped))
      · intro id head span index isBranch before _ after succeeded
        obtain ⟨_, between, recorded, continued⟩ := Step.bind_eq_ok.mp succeeded
        obtain rfl := apply_eq_ok.mp recorded
        obtain ⟨node, found, _⟩ := Option.map_eq_some_iff.mp isBranch
        exact composes.record found
          (induction.bindLink composes proper isBranch _ _ _ _ _ continued)

/-- The members of a procedure's body are visited in the region of the procedure, or the body itself
if it is no block. -/
theorem relates_bindBody (limit : Nat) (found : tree.statement? (some ⟨0⟩) = some node) :
    Relates (fun before after => visited [some ⟨0⟩] before after ∨
        visited (node.content.children.map (·.1)) before after)
      (Bind.bindBody tree limit node.content) := by
  intro before _ after succeeded
  have siblings := StatementTree.areSiblings_children found
  cases content : node.content with
  | block members =>
      rw [content] at succeeded siblings
      have children : (StatementContent.block members).children.map (·.1) = members := by
        simp [StatementContent.children, Function.comp_def]
      rw [children] at siblings ⊢
      exact .inr ((walks_visit composes proper limit).bindMembers composes proper siblings _ _ _
        succeeded)
  | _ =>
      rw [content] at succeeded
      change Bind.visit tree _ (.statement tree.root .root none) before = _ at succeeded
      rw [proper.root] at succeeded
      exact .inl ((walks_visit composes proper _).statement _ _ _ _ _ _ succeeded)

end Bind

end LexicalScope
