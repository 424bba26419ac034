import ParaLang.Failure

/-! # Calculating with results

How the outcomes of partial and of traced computations compose. -/

namespace ParaLang

namespace Result

variable {ε α β : Type}

@[simp] theorem pure_eq_ok (value : α) : (pure value : Except ε α) = .ok value := rfl

@[simp] theorem ok_bind (value : α) (next : α → Except ε β) :
    (Except.ok value >>= next) = next value := rfl

@[simp] theorem error_bind (failure : ε) (next : α → Except ε β) :
    (Except.error failure >>= next) = .error failure := rfl

@[simp] theorem map_ok (function : α → β) (value : α) :
    (function <$> (Except.ok value : Except ε α)) = .ok (function value) := rfl

@[simp] theorem map_error (function : α → β) (failure : ε) :
    (function <$> (Except.error failure : Except ε α)) = .error failure := rfl

@[simp] theorem ok_tryCatch (value : α) (handler : ε → Except ε α) :
    (Except.ok value).tryCatch handler = .ok value := rfl

@[simp] theorem error_tryCatch (failure : ε) (handler : ε → Except ε α) :
    (Except.error failure).tryCatch handler = handler failure := rfl

theorem bind_eq_ok_iff {first : Except ε α} {next : α → Except ε β} {result : β} :
    (first >>= next) = .ok result ↔ ∃ value, first = .ok value ∧ next value = .ok result := by
  cases first <;> simp

end Result

namespace Traced

variable {α β : Type}

@[simp] theorem outcome_pure (value : α) : (Pure.pure value : Traced α).outcome = .ok value := rfl

@[simp] theorem outcome_bind (first : Traced α) (next : α → Traced β) :
    (first >>= next).outcome = first.outcome >>= fun value => (next value).outcome := by
  change (Traced.bind first next).outcome = _
  unfold Traced.bind
  cases first.outcome <;> rfl

@[simp] theorem outcome_ofResult (result : Result α) : (ofResult result).outcome = result := rfl

@[simp] theorem outcome_lift (result : Result α) :
    (liftM result : Traced α).outcome = result := rfl

@[simp] theorem outcome_note (verbosity level : Nat) (text : String) :
    (note verbosity level text).outcome = .ok () := rfl

end Traced

end ParaLang
