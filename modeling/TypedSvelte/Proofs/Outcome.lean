/-!
# Computations that may be refused

What the result of a computation says about its parts, and what one step of a loop says about what
the loop returns.
-/
namespace TypedSvelte

theorem exists_of_bind_ok {ε α β : Type} {first : Except ε α} {next : α → Except ε β} {value : β}
    (succeeded : (first >>= next) = .ok value) : ∃ x, first = .ok x ∧ next x = .ok value := by
  cases first with
  | error e => cases succeeded
  | ok x => exact ⟨x, rfl, succeeded⟩

theorem eq_ok_of_mapError {ε ε' α : Type} {f : ε → ε'} {result : Except ε α} {x : α}
    (succeeded : result.mapError f = .ok x) : result = .ok x := by
  cases result with
  | error e => cases succeeded
  | ok y => exact congrArg Except.ok (Except.ok.inj succeeded)

/-- A check that a result passes says that there is a result. -/
theorem exists_ok_of_check {ε α : Type} {result : Except ε α} {check : α → Bool}
    (checked : result.toOption.any check = true) : ∃ x, result = .ok x ∧ check x = true := by
  cases result with
  | error e => cases checked
  | ok x => exact ⟨x, rfl, checked⟩

/-- A check that finds an error. -/
theorem eq_error_of_check {ε α : Type} [DecidableEq ε] {result : Except ε α} {error : ε}
    (checked : (match result with | .ok _ => false | .error e => decide (e = error)) = true) :
    result = .error error := by
  cases result with
  | ok x => cases checked
  | error e => exact congrArg Except.error (of_decide_eq_true checked)

section

variable {ε α β : Type} {f : β → α → Except ε β} {xs : List α} {start : β} {P : β → Prop}

/-- What all steps preserve holds of the result. -/
theorem of_foldlM_ok {result : β} (accepted : xs.foldlM f start = .ok result) (initial : P start)
    (step : ∀ b, P b → ∀ x ∈ xs, ∀ next, f b x = .ok next → P next) : P result := by
  induction xs generalizing start with
  | nil =>
    cases accepted
    exact initial
  | cons x rest ih =>
    obtain ⟨next, made, accepted⟩ := exists_of_bind_ok accepted
    exact ih accepted (step start initial x List.mem_cons_self next made)
      fun b holds y member => step b holds y (List.mem_cons_of_mem x member)

/-- A loop of which no step is refused has a result. What a step achieves for its element is kept by
the steps after it. -/
theorem exists_foldlM_ok {Q : α → β → Prop} (initial : P start)
    (step : ∀ b, P b → ∀ x ∈ xs, ∃ next, f b x = .ok next ∧ P next ∧ Q x next ∧
      ∀ y, Q y b → Q y next) :
    ∃ result, xs.foldlM f start = .ok result ∧ P result ∧ (∀ x ∈ xs, Q x result) ∧
      ∀ y, Q y start → Q y result := by
  induction xs generalizing start with
  | nil => exact ⟨start, rfl, initial, nofun, fun _ achieved => achieved⟩
  | cons x rest ih =>
    obtain ⟨next, made, holds, achieved, kept⟩ := step start initial x List.mem_cons_self
    obtain ⟨result, rest, last, later, keptLater⟩ :=
      ih holds fun b holds y member => step b holds y (List.mem_cons_of_mem x member)
    refine ⟨result, ?_, last, ?_, fun y before => keptLater y (kept y before)⟩
    · rw [List.foldlM_cons, made]
      exact rest
    · exact List.forall_mem_cons.2 ⟨keptLater x achieved, later⟩

end

section

variable {ε α β : Type} {f : β → α → Except ε β} {fault? : α → Option ε} {step : β → α → β}

/-- A fault, or the result where there is none. -/
def faultOr : Option ε → β → Except ε β
  | some fault, _ => .error fault
  | none, result => .ok result

theorem faultOr_eq_ok_iff {fault : Option ε} {result expected : β} :
    faultOr fault result = .ok expected ↔ fault = none ∧ result = expected := by
  cases fault with
  | some e => exact iff_of_false nofun nofun
  | none => exact ⟨fun made => ⟨rfl, Except.ok.inj made⟩, fun made => congrArg Except.ok made.2⟩

/-- A loop that refuses some elements, whatever came before them, ends at the first of these, or else
with a step for each element. -/
theorem foldlM_eq_of_faults (each : ∀ b x, f b x = faultOr (fault? x) (step b x)) (xs : List α)
    (start : β) : xs.foldlM f start = faultOr (xs.findSome? fault?) (xs.foldl step start) := by
  induction xs generalizing start with
  | nil => rfl
  | cons x rest ih =>
    rw [List.foldlM_cons, each, List.findSome?_cons]
    cases fault? x with
    | some e => rfl
    | none => exact ih (step start x)

end

section

variable {ε α β : Type} {P : ε → Prop}

/-- All errors that the computation may end with satisfy `P`. -/
def FailsWith (P : ε → Prop) (result : Except ε α) : Prop :=
  ∀ error, result = .error error → P error

theorem failsWith_ok (x : α) : FailsWith P (.ok x : Except ε α) := nofun

theorem failsWith_error {error : ε} (holds : P error) :
    FailsWith P (.error error : Except ε α) := by
  rintro _ ⟨⟩
  exact holds

theorem FailsWith.bind {first : Except ε α} {next : α → Except ε β} (here : FailsWith P first)
    (later : ∀ x, first = .ok x → FailsWith P (next x)) : FailsWith P (first >>= next) := by
  cases first with
  | error e => exact failsWith_error (here e rfl)
  | ok x => exact later x rfl

theorem FailsWith.map {result : Except ε α} (fails : FailsWith P result) (f : α → β) :
    FailsWith P (result.map f) := by
  cases result with
  | error e => exact failsWith_error (fails e rfl)
  | ok x => exact failsWith_ok (f x)

theorem FailsWith.mapError {ε' : Type} {P : ε' → Prop} {f : ε → ε'} {result : Except ε α}
    (fails : FailsWith (fun error => P (f error)) result) : FailsWith P (result.mapError f) := by
  cases result with
  | error e => exact failsWith_error (fails e rfl)
  | ok x => exact failsWith_ok x

theorem failsWith_mapM {f : α → Except ε β} {x? : Option α}
    (one : ∀ x ∈ x?, FailsWith P (f x)) : FailsWith P (x?.mapM f) := by
  cases x? with
  | none => exact failsWith_ok none
  | some x =>
    rw [Option.mapM_some]
    exact (one x rfl).bind fun y _ => failsWith_ok (some y)

theorem failsWith_foldlM {f : β → α → Except ε β} {xs : List α}
    (one : ∀ b, ∀ x ∈ xs, FailsWith P (f b x)) (start : β) :
    FailsWith P (xs.foldlM f start) := by
  induction xs generalizing start with
  | nil => exact failsWith_ok start
  | cons x rest ih =>
    rw [List.foldlM_cons]
    exact (one start x List.mem_cons_self).bind fun next _ =>
      ih (fun b y member => one b y (List.mem_cons_of_mem x member)) next

end

end TypedSvelte
