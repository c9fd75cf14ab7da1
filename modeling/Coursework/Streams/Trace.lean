import Mathlib.Data.List.Basic

/-!
# Programs that leave a trace

A program that does something visible from time to time: its events in their order, and what it
ends with, a value or the reason for which it stops. A reason stops everything that follows, but
the events before it stay.
-/

namespace Coursework

/-- What a program did, and what it ended with. -/
structure Trace (E H α : Type) where
  events : List E
  result : Except H α

namespace Trace

variable {E H α β : Type}

instance : Monad (Trace E H) where
  pure a := ⟨[], .ok a⟩
  bind t f :=
    match t.result with
    | .ok a => ⟨t.events ++ (f a).events, (f a).result⟩
    | .error stop => ⟨t.events, .error stop⟩

/-- One event. -/
def emit (e : E) : Trace E H Unit := ⟨[e], .ok ()⟩

/-- Some events. -/
def emits (events : List E) : Trace E H Unit := ⟨events, .ok ()⟩

/-- Stop. -/
def halt (stop : H) : Trace E H α := ⟨[], .error stop⟩

variable {t : Trace E H α} {f : α → Trace E H β} {a : α} {stop : H}

@[simp] theorem events_pure (a : α) : (pure a : Trace E H α).events = [] := rfl

@[simp] theorem pure_bind (a : α) (f : α → Trace E H β) : (pure a >>= f) = f a := rfl

@[simp] theorem events_emit_bind (e : E) (f : Unit → Trace E H β) :
    (emit e >>= f).events = e :: (f ()).events := rfl

@[simp] theorem result_emit_bind (e : E) (f : Unit → Trace E H β) :
    (emit e >>= f).result = (f ()).result := rfl

/-- A program goes on after a value. -/
theorem bind_of_ok (h : t.result = .ok a) :
    (t >>= f) = ⟨t.events ++ (f a).events, (f a).result⟩ := by
  show (match t.result with | .ok a => _ | .error stop => _) = _
  rw [h]

/-- And it stops for the reason for which its first part stops. -/
theorem bind_of_error (h : t.result = .error stop) : (t >>= f) = ⟨t.events, .error stop⟩ := by
  show (match t.result with | .ok a => _ | .error stop => _) = _
  rw [h]

/-- A program ends with a value if both of its parts do. -/
theorem result_bind_eq_ok {b : β} :
    (t >>= f).result = .ok b ↔ ∃ a, t.result = .ok a ∧ (f a).result = .ok b := by
  cases h : t.result with
  | ok a => simp [bind_of_ok h]
  | error stop => simp [bind_of_error h]

/-- An event belongs to one of the parts, to the second one after a value of the first. -/
theorem mem_events_bind {e : E} : e ∈ (t >>= f).events ↔
    e ∈ t.events ∨ ∃ a, t.result = .ok a ∧ e ∈ (f a).events := by
  cases h : t.result with
  | ok a => simp [bind_of_ok h]
  | error stop => simp [bind_of_error h]

/-- The data of some events, as a function picks them out. -/
theorem mem_filterMap_iff {γ : Type} {pick : E → Option γ} {wrap : γ → E}
    (hpick : ∀ e c, pick e = some c ↔ e = wrap c) {c : γ} {events : List E} :
    c ∈ events.filterMap pick ↔ wrap c ∈ events := by
  rw [List.mem_filterMap]
  constructor
  · intro h
    obtain ⟨e, he, hc⟩ := h
    rwa [← (hpick e c).mp hc]
  · intro h
    exact ⟨wrap c, h, (hpick _ c).mpr rfl⟩

/-! ## Properties of all events -/

/-- All events of a program have a property. -/
def Always (P : E → Prop) (t : Trace E H α) : Prop := ∀ e ∈ t.events, P e

variable {P : E → Prop}

theorem always_pure (a : α) : (pure a : Trace E H α).Always P := by
  intro e he
  cases he

theorem always_halt (stop : H) : (halt stop : Trace E H α).Always P := by
  intro e he
  cases he

theorem always_emits {events : List E} (h : ∀ e ∈ events, P e) :
    (emits events : Trace E H Unit).Always P := h

theorem always_emit {e : E} (h : P e) : (emit e : Trace E H Unit).Always P := by
  intro e' he'
  rw [List.mem_singleton.mp he']
  exact h

/-- The events of a program in two parts have a property if those of its parts do. -/
theorem always_bind (ht : t.Always P) (hf : ∀ a, (f a).Always P) : (t >>= f).Always P := by
  intro e he
  rcases mem_events_bind.mp he with hfirst | ⟨a, -, hsecond⟩
  · exact ht e hfirst
  · exact hf a e hsecond

end Trace

end Coursework
