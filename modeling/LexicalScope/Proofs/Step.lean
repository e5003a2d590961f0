/-!
# Successful steps

A step of a state machine that can fail succeeds exactly when its parts succeed one after the other.
-/

namespace LexicalScope.Step

variable {Failure State First Second : Type}

@[simp] theorem bind_eq_ok {step : EStateM Failure State First}
    {next : First → EStateM Failure State Second} {before after : State} {result : Second} :
    (step >>= next) before = .ok result after ↔
      ∃ value between, step before = .ok value between ∧ next value between = .ok result after := by
  change EStateM.bind step next before = .ok result after ↔ _
  unfold EStateM.bind
  cases step before with
  | ok value between =>
      constructor
      · intro succeeded
        exact ⟨value, between, rfl, succeeded⟩
      · rintro ⟨_, _, same, succeeded⟩
        cases same
        exact succeeded
  | error failure between => simp

/-- A step followed by another fails where the first does, or where the second does behind it. -/
theorem bind_eq_error {step : EStateM Failure State First}
    {next : First → EStateM Failure State Second} {before after : State} {failure : Failure} :
    (step >>= next) before = .error failure after ↔
      step before = .error failure after ∨
        ∃ value between, step before = .ok value between ∧
          next value between = .error failure after := by
  change EStateM.bind step next before = .error failure after ↔ _
  unfold EStateM.bind
  cases step before with
  | ok value between =>
      constructor
      · intro failed
        exact .inr ⟨value, between, rfl, failed⟩
      · rintro (failed | ⟨_, _, same, failed⟩)
        · cases failed
        · cases same
          exact failed
  | error failure between => simp

@[simp] theorem pure_eq_ok {value result : First} {before after : State} :
    (pure value : EStateM Failure State First) before = .ok result after ↔
      value = result ∧ before = after := by
  change EStateM.Result.ok value before = .ok result after ↔ _
  simp

theorem mapM_cons_eq_ok {step : First → EStateM Failure State Second} {first : First}
    {rest : List First} {before after : State} {results : List Second} :
    (first :: rest).mapM step before = .ok results after ↔
      ∃ result others between, results = result :: others ∧ step first before = .ok result between ∧
        rest.mapM step between = .ok others after := by
  rw [List.mapM_cons]
  simp only [bind_eq_ok, pure_eq_ok]
  constructor
  · rintro ⟨result, between, stepped, others, last, mapped, rfl, rfl⟩
    exact ⟨result, others, between, rfl, stepped, mapped⟩
  · rintro ⟨result, others, between, rfl, stepped, mapped⟩
    exact ⟨result, between, stepped, others, after, mapped, rfl, rfl⟩

theorem mapM_nil_eq_ok {step : First → EStateM Failure State Second} {before after : State}
    {results : List Second} :
    ([] : List First).mapM step before = .ok results after ↔ results = [] ∧ before = after := by
  rw [List.mapM_nil, pure_eq_ok]
  exact ⟨fun ⟨empty, same⟩ => ⟨empty.symm, same⟩, fun ⟨empty, same⟩ => ⟨empty.symm, same⟩⟩

theorem forM_cons_eq_ok {step : First → EStateM Failure State PUnit} {first : First}
    {rest : List First} {before after : State} {result : PUnit} :
    (first :: rest).forM step before = .ok result after ↔
      ∃ between, step first before = .ok ⟨⟩ between ∧
        rest.forM step between = .ok result after := by
  change (do step first; rest.forM step) before = .ok result after ↔ _
  rw [bind_eq_ok]
  exact ⟨fun ⟨_, between, stepped, others⟩ => ⟨between, stepped, others⟩,
    fun ⟨between, stepped, others⟩ => ⟨_, between, stepped, others⟩⟩

/-! ## Checks -/

variable {Element : Type} {check : Element → Except Failure Unit} {elements : List Element}
  {first second : Except Failure Unit} {failure : Failure}

theorem and_then_eq_ok :
    (first >>= fun _ => second) = .ok () ↔ first = .ok () ∧ second = .ok () := by
  cases first with
  | error _ => exact ⟨fun absurd => (nomatch absurd), fun absurd => (nomatch absurd.1)⟩
  | ok => exact (and_iff_right rfl).symm

theorem and_then_eq_error : (first >>= fun _ => second) = .error failure ↔
    first = .error failure ∨ first = .ok () ∧ second = .error failure := by
  cases first with
  | error _ => exact ⟨.inl, fun failed => failed.resolve_right fun absurd => (nomatch absurd.1)⟩
  | ok =>
      exact ⟨fun failed => .inr ⟨rfl, failed⟩,
        fun failed => (failed.resolve_left fun absurd => (nomatch absurd)).2⟩

theorem check_cons (first : Element) (rest : List Element) :
    (first :: rest).forM check = (check first >>= fun _ => rest.forM check) := rfl

/-- A list passes a check exactly when all its elements do. -/
theorem forM_eq_ok_iff :
    elements.forM check = .ok () ↔ ∀ element ∈ elements, check element = .ok () := by
  induction elements with
  | nil => exact iff_of_true rfl fun _ absurd => (nomatch absurd)
  | cons first rest induction => rw [check_cons, and_then_eq_ok, induction, List.forall_mem_cons]

theorem forM_congr {other : Element → Except Failure Unit}
    (same : ∀ element ∈ elements, check element = other element) :
    elements.forM check = elements.forM other := by
  induction elements with
  | nil => rfl
  | cons first rest induction =>
      obtain ⟨head, others⟩ := List.forall_mem_cons.mp same
      rw [check_cons, check_cons, head, induction others]

/-- A list fails a check by the failure of its first element that does not pass. -/
theorem exists_append_of_forM_eq_error (failed : elements.forM check = .error failure) :
    ∃ before element after, elements = before ++ element :: after ∧
      (∀ passed ∈ before, check passed = .ok ()) ∧ check element = .error failure := by
  induction elements with
  | nil => cases failed
  | cons first rest induction =>
      rw [check_cons, and_then_eq_error] at failed
      rcases failed with failed | ⟨passed, failed⟩
      · exact ⟨[], first, rest, rfl, fun _ absurd => (nomatch absurd), failed⟩
      · obtain ⟨before, element, after, rfl, ahead, failed⟩ := induction failed
        exact ⟨first :: before, element, after, rfl, List.forall_mem_cons.mpr ⟨passed, ahead⟩,
          failed⟩

theorem exists_of_forM_eq_error (failed : elements.forM check = .error failure) :
    ∃ element ∈ elements, check element = .error failure := by
  obtain ⟨before, element, after, rfl, _, failed⟩ := exists_append_of_forM_eq_error failed
  exact ⟨element, List.mem_append_right before List.mem_cons_self, failed⟩

theorem exists_of_isOk {result : Except Failure First} (succeeded : result.isOk = true) :
    ∃ value, result = .ok value := by
  cases result with
  | error failure => cases succeeded
  | ok value => exact ⟨value, rfl⟩

end LexicalScope.Step
