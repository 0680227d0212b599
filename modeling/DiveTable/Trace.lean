/-! Results that may fail, and computations that print lines on their way to a value or a fault. A
chain of steps succeeds when each of them does, and a result is told by what it is when it
succeeds. -/
namespace DiveTable

section

variable {ε α β : Type}

theorem toOption_bind (x : Except ε α) (f : α → Except ε β) :
    (Except.bind x f).toOption = x.toOption.bind fun a => (f a).toOption := by
  cases x with
  | error e => rfl
  | ok a => rfl

theorem toOption_map (f : α → β) (x : Except ε α) :
    (x.map f).toOption = x.toOption.map f := by
  cases x with
  | error e => rfl
  | ok a => rfl

theorem eq_ok_of_toOption {x : Except ε α} {a : α} (h : x.toOption = some a) :
    x = .ok a := by
  cases x with
  | error e => cases h
  | ok b => exact congrArg Except.ok (Option.some.inj h)

theorem bind_eq_ok {x : Except ε α} {f : α → Except ε β} {b : β}
    (h : Except.bind x f = .ok b) : ∃ a, x = .ok a ∧ f a = .ok b := by
  cases x with
  | error e => cases h
  | ok a => exact ⟨a, rfl, h⟩

theorem map_eq_ok {x : Except ε α} {f : α → β} {b : β}
    (h : x.map f = .ok b) : ∃ a, x = .ok a ∧ f a = b := by
  cases x with
  | error e => cases h
  | ok a => exact ⟨a, rfl, Except.ok.inj h⟩

theorem mapError_eq_ok {δ : Type} {f : ε → δ} {x : Except ε α} {a : α} (h : x.mapError f = .ok a) :
    x = .ok a := by
  cases x with
  | error e => cases h
  | ok b => exact congrArg Except.ok (Except.ok.inj h)

end

structure Trace (ε α : Type) where
  printed : List String
  outcome : Except ε α

namespace Trace

variable {ε δ α β : Type}

def pure (a : α) : Trace ε α := ⟨[], .ok a⟩

def fail (e : ε) : Trace ε α := ⟨[], .error e⟩

def ofExcept (outcome : Except ε α) : Trace ε α := ⟨[], outcome⟩

def say (debug : Bool) (lines : List String) : Trace ε Unit := ⟨if debug then lines else [], .ok ()⟩

def bind (t : Trace ε α) (next : α → Trace ε β) : Trace ε β :=
  match t.outcome with
  | .error e => ⟨t.printed, .error e⟩
  | .ok a => ⟨t.printed ++ (next a).printed, (next a).outcome⟩

instance : Monad (Trace ε) where
  pure := Trace.pure
  bind := Trace.bind

@[simp] theorem printed_pure (a : α) : (Pure.pure a : Trace ε α).printed = [] := rfl

@[simp] theorem outcome_pure (a : α) : (Pure.pure a : Trace ε α).outcome = .ok a := rfl

@[simp] theorem printed_fail (e : ε) : (fail e : Trace ε α).printed = [] := rfl

@[simp] theorem outcome_fail (e : ε) : (fail e : Trace ε α).outcome = .error e := rfl

@[simp] theorem printed_ofExcept (outcome : Except ε α) : (ofExcept outcome).printed = [] := rfl

@[simp] theorem outcome_ofExcept (outcome : Except ε α) :
    (ofExcept outcome).outcome = outcome := rfl

@[simp] theorem outcome_say (debug : Bool) (lines : List String) :
    (say debug lines : Trace ε Unit).outcome = .ok () := rfl

@[simp] theorem printed_say_false (lines : List String) :
    (say false lines : Trace ε Unit).printed = [] := rfl

@[simp] theorem printed_say_true (lines : List String) :
    (say true lines : Trace ε Unit).printed = lines := rfl

/-- How a sequence ends does not depend on what is printed. -/
@[simp] theorem outcome_bind (t : Trace ε α) (next : α → Trace ε β) :
    (t >>= next).outcome = t.outcome >>= fun a => (next a).outcome := by
  show (Trace.bind t next).outcome = _
  unfold Trace.bind
  cases t.outcome <;> rfl

theorem outcome_bind_ok {t : Trace ε α} {a : α} (h : t.outcome = .ok a) (next : α → Trace ε β) :
    (t >>= next).outcome = (next a).outcome := by
  rw [outcome_bind, h]
  rfl

theorem printed_bind_error {t : Trace ε α} {e : ε} (h : t.outcome = .error e)
    (next : α → Trace ε β) : (t >>= next).printed = t.printed := by
  show (Trace.bind t next).printed = _
  unfold Trace.bind
  rw [h]

def mapError (f : ε → δ) (t : Trace ε α) : Trace δ α := ⟨t.printed, t.outcome.mapError f⟩

@[simp] theorem printed_mapError (f : ε → δ) (t : Trace ε α) :
    (t.mapError f).printed = t.printed := rfl

@[simp] theorem outcome_mapError (f : ε → δ) (t : Trace ε α) :
    (t.mapError f).outcome = t.outcome.mapError f := rfl

end Trace

end DiveTable
