import LexicalScope.Proofs.Layout.Occupation
import LexicalScope.Proofs.Scope.Fitting
import LexicalScope.Proofs.Trace.Syntax

/-!
# What the syntax of a statement tree tells

Where syntax stands in a statement tree, its kinds, forks and exits are those of the tree: a
statement holds as many forks as there are in its interval of indexes, and it exits if it is taken
to with as many levels as it nests deep.
-/

namespace LexicalScope

variable {tree : StatementTree}

/-- The content at an interval has the kind of the form that occupies it. -/
theorem StatementForm.kind_eq : ∀ (form : StatementForm) {depth : Nat} {id : StatementId}
    {content : StatementContent} {start stop : Mark},
      form.Occupies tree depth id content start stop → content.kind = form.kind
  | .block _, _, _, _, _, _, ⟨_, same, _⟩ | .branch _ _ none, _, _, _, _, _, ⟨_, same, _⟩
  | .branch _ _ (some _), _, _, _, _, _, ⟨_, _, same, _⟩
  | .whileLoop _ _, _, _, _, _, _, ⟨_, same, _⟩ | .doLoop _ _, _, _, _, _, _, ⟨_, same, _⟩
  | .forLoop _ _ _ _ _, _, _, _, _, _, ⟨_, _, _, _, _, _, _, _, same, _⟩
  | .forEachLoop _ _ _, _, _, _, _, _, ⟨_, same, _⟩
  | .resource _ _ _, _, _, _, _, _, ⟨_, _, _, _, same, _⟩
  | .switch _ _, _, _, _, _, _, ⟨_, _, same, _⟩
  | .localDeclaration _, _, _, _, _, _, ⟨_, same, _⟩ | .evaluation _, _, _, _, _, _, ⟨same, _⟩
  | .returning _, _, _, _, _, _, ⟨_, same, _⟩ | .throwing _, _, _, _, _, _, ⟨_, same, _⟩
  | .breaking, _, _, _, _, _, ⟨same, _⟩ | .continuing, _, _, _, _, _, ⟨same, _⟩
  | .labeled _ _, _, _, _, _, _, ⟨same, _⟩ | .empty, _, _, _, _, _, ⟨same, _⟩ => by
    rw [same]
    rfl

private theorem Statement.kind?_eq (statement : Statement) {depth : Nat} {parent : StatementRef}
    {start stop : Mark} (occupied : statement.Occupies tree depth parent start stop) :
    tree.kind? (some ⟨start.statements⟩) = some statement.kind := by
  obtain ⟨span, form⟩ := statement
  obtain ⟨_, content, found, inside⟩ := occupied
  rw [StatementTree.kind?_eq found, StatementNode.kind, form.kind_eq inside]
  rfl

theorem Statement.place_eq (statement : Statement) {depth : Nat} {parent : StatementRef}
    {start stop : Mark} (occupied : statement.Occupies tree depth parent start stop) :
    tree.place ⟨start.statements⟩ = tree.placeBelow parent start.statements := by
  obtain ⟨span, form⟩ := statement
  obtain ⟨_, content, found, inside⟩ := occupied
  exact StatementTree.place_eq found

theorem Section.place_eq (part : Section) {depth : Nat} {parent : StatementRef}
    {start stop : Mark} (occupied : part.Occupies tree depth parent start stop) :
    tree.place ⟨start.statements⟩ = tree.placeBelow parent start.statements := by
  obtain ⟨span, labels, statements⟩ := part
  obtain ⟨_, _, _, found, _⟩ := occupied
  exact StatementTree.place_eq found

/-- What a statement that is no alternative says of itself, the tree says of it. -/
theorem Statement.opensAnywhere_iff (proper : tree.Proper) (statement : Statement) {depth : Nat}
    {parent : StatementRef} {start stop : Mark}
    (occupied : statement.Occupies tree depth parent start stop)
    (notElse : statement.kind = .branch → ¬ tree.IsElseBody ⟨start.statements⟩) :
    tree.OpensAnywhere ⟨start.statements⟩ ↔ statement.opens = true := by
  obtain ⟨span, form⟩ := statement
  obtain ⟨_, content, found, inside⟩ := occupied
  have kinds := form.kind_eq inside
  rw [StatementTree.opensAnywhere_iff found, StatementNode.kind, kinds, Statement.opens]
  cases form with
  | branch condition thenBody elseBody =>
      cases elseBody with
      | none =>
          obtain ⟨_, rfl, _⟩ := inside
          simp [StatementForm.kind, StatementKind.scopeRule, StatementForm.opens]
      | some elseBody =>
          obtain ⟨_, _, rfl, _, _, inElse⟩ := inside
          rw [proper.isTwoWay_iff found rfl, elseBody.kind?_eq inElse]
          simp [StatementForm.kind, StatementKind.scopeRule, StatementForm.opens, notElse rfl]
  | _ =>
      have noBranch : ∀ condition thenBody elseBody,
          content ≠ .branch condition thenBody (some elseBody) := by
        rintro _ _ _ rfl
        cases kinds
      simp [StatementForm.opens, noBranch]

/-! ## Forks -/

mutual

/-- The forks of a statement are those in its interval of indexes. -/
theorem Statement.forksBefore_stop : ∀ (statement : Statement) {depth : Nat}
    {parent : StatementRef} {start stop : Mark}, statement.Occupies tree depth parent start stop →
      tree.forksBefore stop.statements = tree.forksBefore start.statements + statement.forks
  | .mk span form, depth, parent, start, stop, occupied => by
    obtain ⟨_, content, found, inside⟩ := occupied
    have below := form.forksBefore_stop inside
    have head := tree.forksBefore_succ start.statements
    rw [StatementTree.isFork_eq found, StatementNode.kind, form.kind_eq inside] at head
    simp only [Statement.forks] at below head ⊢
    omega

theorem StatementForm.forksBefore_stop : ∀ (form : StatementForm) {depth : Nat} {id : StatementId}
    {content : StatementContent} {start stop : Mark},
      form.Occupies tree depth id content start stop →
        tree.forksBefore stop.statements + (if form.kind.isFork then 1 else 0) =
          tree.forksBefore start.statements + form.forks
  | .block statements, _, _, _, _, _, occupied => by
    obtain ⟨_, _, inside⟩ := occupied
    exact Statement.forksBefore_stopOfAll statements inside
  | .branch _ thenBody none, _, _, _, _, _, occupied => by
    obtain ⟨_, _, _, inThen⟩ := occupied
    exact congrArg Nat.succ (thenBody.forksBefore_stop inThen :)
  | .branch _ thenBody (some elseBody), _, _, _, _, _, occupied => by
    obtain ⟨_, _, _, _, inThen, inElse⟩ := occupied
    have first := thenBody.forksBefore_stop inThen
    have second := elseBody.forksBefore_stop inElse
    simp only [StatementForm.forks, StatementForm.kind, StatementKind.isFork, if_true] at first ⊢
    omega
  | .whileLoop _ body, _, _, _, _, _, occupied => by
    obtain ⟨_, _, _, inBody⟩ := occupied
    exact (body.forksBefore_stop inBody :)
  | .doLoop body _, _, _, _, _, _, occupied => by
    obtain ⟨_, _, inBody, _⟩ := occupied
    exact (body.forksBefore_stop inBody :)
  | .forLoop _ _ _ _ body, _, _, _, _, _, occupied => by
    obtain ⟨_, _, _, _, _, _, _, _, _, _, _, _, _, inBody⟩ := occupied
    exact (body.forksBefore_stop inBody :)
  | .forEachLoop _ _ body, _, _, _, _, _, occupied => by
    obtain ⟨_, _, _, inBody⟩ := occupied
    exact (body.forksBefore_stop inBody :)
  | .resource _ _ body, _, _, _, _, _, occupied => by
    obtain ⟨_, _, _, _, _, _, _, inBody⟩ := occupied
    exact (body.forksBefore_stop inBody :)
  | .switch _ sections, _, _, _, _, _, occupied => by
    obtain ⟨_, _, _, _, inside⟩ := occupied
    exact congrArg Nat.succ (Section.forksBefore_stopOfAll sections inside :)
  | .labeled _ body, _, _, _, _, _, occupied => by
    obtain ⟨_, inBody⟩ := occupied
    exact (body.forksBefore_stop inBody :)
  | .localDeclaration _, _, _, _, _, _, ⟨_, _, _, same⟩
  | .evaluation _, _, _, _, _, _, ⟨_, _, same⟩ | .returning _, _, _, _, _, _, ⟨_, _, _, same⟩
  | .throwing _, _, _, _, _, _, ⟨_, _, _, same⟩ => by
    rw [same]
    rfl
  | .breaking, _, _, _, _, _, ⟨_, same⟩ | .continuing, _, _, _, _, _, ⟨_, same⟩
  | .empty, _, _, _, _, _, ⟨_, same⟩ => by
    rw [same]
    rfl

theorem Statement.forksBefore_stopOfAll : ∀ (statements : List Statement) {depth : Nat}
    {parent : StatementRef} {refs : List StatementRef} {start stop : Mark},
      Statement.AllOccupy tree depth parent statements refs start stop →
        tree.forksBefore stop.statements =
          tree.forksBefore start.statements + Statement.forksInAll statements
  | [], _, _, _, _, _, ⟨_, same⟩ => by
    rw [same]
    rfl
  | first :: rest, _, _, _, _, _, ⟨_, _, _, inFirst, inRest⟩ => by
    rw [Statement.forksBefore_stopOfAll rest inRest, first.forksBefore_stop inFirst,
      Statement.forksInAll, Nat.add_assoc]

theorem Section.forksBefore_stop : ∀ (part : Section) {depth : Nat} {parent : StatementRef}
    {start stop : Mark}, part.Occupies tree depth parent start stop →
      tree.forksBefore stop.statements = tree.forksBefore start.statements + part.forks
  | .mk _ _ statements, _, _, _, _, ⟨_, _, _, found, _, inside⟩ => by
    rw [Statement.forksBefore_stopOfAll statements inside, tree.forksBefore_succ,
      StatementTree.isFork_eq found]
    rfl

theorem Section.forksBefore_stopOfAll : ∀ (sections : List Section) {depth : Nat}
    {parent : StatementRef} {refs : List StatementRef} {start stop : Mark},
      Section.AllOccupy tree depth parent sections refs start stop →
        tree.forksBefore stop.statements =
          tree.forksBefore start.statements + Section.forksInAll sections
  | [], _, _, _, _, _, ⟨_, same⟩ => by
    rw [same]
    rfl
  | first :: rest, _, _, _, _, _, ⟨_, _, _, inFirst, inRest⟩ => by
    rw [Section.forksBefore_stopOfAll rest inRest, first.forksBefore_stop inFirst,
      Section.forksInAll, Nat.add_assoc]

end

/-- What follows a statement stands behind its forks. -/
theorem Statement.placeBelow_stop (statement : Statement) {depth : Nat} {parent : StatementRef}
    {start stop : Mark} (occupied : statement.Occupies tree depth parent start stop) :
    tree.placeBelow parent stop.statements =
      (tree.placeBelow parent start.statements).behind statement.forks := by
  rw [StatementTree.placeBelow, statement.forksBefore_stop occupied]
  rfl

theorem Section.placeBelow_stop (part : Section) {depth : Nat} {parent : StatementRef}
    {start stop : Mark} (occupied : part.Occupies tree depth parent start stop) :
    tree.placeBelow parent stop.statements =
      (tree.placeBelow parent start.statements).behind part.forks := by
  rw [StatementTree.placeBelow, part.forksBefore_stop occupied]
  rfl

/-! ## Exits -/

section Exits

variable {breakExits : Bool}

mutual

/-- A statement is taken to exit if it does, with as many levels as it nests deep. -/
theorem Statement.alwaysExits_eq : ∀ (statement : Statement) {depth limit : Nat}
    {parent : StatementRef} {start stop : Mark}, statement.Occupies tree depth parent start stop →
      tree.Fits limit (some ⟨start.statements⟩) →
        tree.alwaysExits breakExits limit (some ⟨start.statements⟩) = statement.exits breakExits
  | .mk _ form, _, _, _, _, _, occupied, fits => by
    obtain ⟨_, content, found, inside⟩ := occupied
    exact form.alwaysExits_eq inside (StatementTree.content?_eq found) fits

theorem StatementForm.alwaysExits_eq : ∀ (form : StatementForm) {depth limit : Nat}
    {id : StatementId} {content : StatementContent} {start stop : Mark},
      form.Occupies tree depth id content start stop → tree.content? (some id) = some content →
        tree.Fits limit (some id) →
          tree.alwaysExits breakExits limit (some id) = form.exits breakExits
  | form, depth, limit, id, content, start, stop, occupied, known, fits => by
    obtain ⟨less, rfl, children⟩ := fits.exists_less known
    rw [StatementTree.alwaysExits_succ known]
    cases form with
    | block statements =>
        obtain ⟨refs, rfl, inside⟩ := occupied
        exact Statement.any_alwaysExits_eq statements inside fun ref listed =>
          children (ref, .member) (List.mem_map_of_mem listed)
    | branch condition thenBody elseBody =>
        cases elseBody with
        | none =>
            obtain ⟨_, rfl, _⟩ := occupied
            rfl
        | some elseBody =>
            obtain ⟨_, _, rfl, _, inThen, inElse⟩ := occupied
            have first := thenBody.alwaysExits_eq inThen (children _ List.mem_cons_self)
            have second := elseBody.alwaysExits_eq inElse
              (children _ (List.mem_cons_of_mem _ List.mem_cons_self))
            exact congrArg₂ and first second
    | labeled label body =>
        obtain ⟨rfl, inBody⟩ := occupied
        exact body.alwaysExits_eq inBody (children _ List.mem_cons_self)
    | whileLoop | doLoop | forEachLoop | localDeclaration | returning | throwing =>
        obtain ⟨_, rfl, _⟩ := occupied
        rfl
    | forLoop =>
        obtain ⟨_, _, _, _, _, _, _, _, rfl, _⟩ := occupied
        rfl
    | resource =>
        obtain ⟨_, _, _, _, rfl, _⟩ := occupied
        rfl
    | switch =>
        obtain ⟨_, _, rfl, _⟩ := occupied
        rfl
    | evaluation | breaking | continuing | empty =>
        obtain ⟨rfl, _⟩ := occupied
        rfl

theorem Statement.any_alwaysExits_eq : ∀ (statements : List Statement) {depth limit : Nat}
    {parent : StatementRef} {refs : List StatementRef} {start stop : Mark},
      Statement.AllOccupy tree depth parent statements refs start stop →
        (∀ ref ∈ refs, tree.Fits limit ref) →
          refs.any (tree.alwaysExits breakExits limit) = Statement.anyExits breakExits statements
  | [], _, _, _, _, _, _, ⟨same, _⟩, _ => by
    rw [same]
    rfl
  | first :: rest, _, _, _, _, _, _, ⟨others, _, same, inFirst, inRest⟩, fits => by
    subst same
    rw [List.any_cons, first.alwaysExits_eq inFirst (fits _ List.mem_cons_self),
      Statement.any_alwaysExits_eq rest inRest fun ref listed =>
        fits ref (List.mem_cons_of_mem _ listed)]
    rfl

end

theorem Section.alwaysExits_eq (part : Section) {depth limit : Nat} {parent : StatementRef}
    {start stop : Mark} (occupied : part.Occupies tree depth parent start stop)
    (fits : tree.Fits limit (some ⟨start.statements⟩)) :
    tree.alwaysExits false limit (some ⟨start.statements⟩) = part.exits := by
  obtain ⟨span, labels, statements⟩ := part
  obtain ⟨_, refs, _, found, _, inside⟩ := occupied
  have known := StatementTree.content?_eq found
  obtain ⟨less, rfl, children⟩ := fits.exists_less known
  rw [StatementTree.alwaysExits_succ known]
  exact Statement.any_alwaysExits_eq statements inside fun ref listed =>
    children (ref, .member) (List.mem_map_of_mem listed)

end Exits

end LexicalScope
