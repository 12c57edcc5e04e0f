import StrictSchema.Json.Decode

/-!
# Readings that agree

Two readings agree if both fail or both succeed, with related errors or results (`Json.Agree`).
Where members are read in another order, another error may be the first (`Json.AnyErrors`).
-/

namespace StrictSchema.Json

/-- Both readings fail with related errors, or both succeed with related results. -/
inductive Agree {α β : Type} (E : DecodeError → DecodeError → Prop) (R : α → β → Prop) :
    Decoded α → Decoded β → Prop where
  | error {e e' : DecodeError} (related : E e e') : Agree E R (.error e) (.error e')
  | ok {a : α} {b : β} (related : R a b) : Agree E R (.ok a) (.ok b)

/-- The errors do not matter. -/
def AnyErrors (_ _ : DecodeError) : Prop := True

section Agree

variable {α β γ δ : Type} {E : DecodeError → DecodeError → Prop} {R : α → β → Prop}
  {S : γ → δ → Prop}

theorem Agree.map {x : Decoded α} {y : Decoded β} (agree : Agree E R x y) {h : α → γ} {k : β → δ}
    (step : ∀ a b, R a b → S (h a) (k b)) : Agree E S (x.map h) (y.map k) := by
  cases agree with
  | error related => exact .error related
  | ok related => exact .ok (step _ _ related)

theorem Agree.map_map {ε ζ : Type} {S : ε → ζ → Prop} {x : Decoded α} {y : Decoded β}
    (agree : Agree E R x y) {h : α → γ} {k : β → δ} {h' : γ → ε} {k' : δ → ζ}
    (step : ∀ a b, R a b → S (h' (h a)) (k' (k b))) :
    Agree E S ((x.map h).map h') ((y.map k).map k') := by
  cases agree with
  | error related => exact .error related
  | ok related => exact .ok (step _ _ related)

theorem Agree.imp {T : α → β → Prop} {x : Decoded α} {y : Decoded β} (agree : Agree E R x y)
    (step : ∀ a b, R a b → T a b) : Agree E T x y := by
  cases agree with
  | error related => exact .error related
  | ok related => exact .ok (step _ _ related)

theorem Agree.bind {x : Decoded α} {y : Decoded β} (agree : Agree E R x y) {h : α → Decoded γ}
    {k : β → Decoded δ} (step : ∀ a b, R a b → Agree E S (h a) (k b)) :
    Agree E S (x.bind h) (y.bind k) := by
  cases agree with
  | error related => exact .error related
  | ok related => exact step _ _ related

theorem Agree.isOk_iff {x : Decoded α} {y : Decoded β} (agree : Agree E R x y) :
    x.isOk ↔ y.isOk := by
  cases agree with
  | error => exact Iff.rfl
  | ok => exact Iff.rfl

theorem Agree.related {a : α} {b : β} (agree : Agree E R (.ok a) (.ok b)) : R a b := by
  cases agree with
  | ok related => exact related

theorem Agree.anyErrors {x : Decoded α} {y : Decoded β} (agree : Agree E R x y) :
    Agree AnyErrors R x y := by
  cases agree with
  | error => exact .error trivial
  | ok related => exact .ok related

/-- Where the errors do not matter, it is enough that both succeed or fail. -/
theorem Agree.of_isOk_iff {x : Decoded α} {y : Decoded β} (both : x.isOk ↔ y.isOk)
    (related : ∀ a b, x = .ok a → y = .ok b → R a b) : Agree AnyErrors R x y := by
  cases x with
  | error e =>
    cases y with
    | error e' => exact .error trivial
    | ok b => exact absurd (both.2 rfl) nofun
  | ok a =>
    cases y with
    | error e' => exact absurd (both.1 rfl) nofun
    | ok b => exact .ok (related a b rfl rfl)

theorem Agree.self (x : Decoded α) : Agree Eq Eq x x := by
  cases x with
  | error e => exact .error rfl
  | ok a => exact .ok rfl

theorem Agree.of_map_eq {g : α → γ} {x y : Decoded α} (same : x.map g = y.map g) :
    Agree Eq (fun a b => g a = g b) x y := by
  cases x with
  | error e =>
    cases y with
    | error e' => exact .error (Except.error.inj same)
    | ok b => cases same
  | ok a =>
    cases y with
    | error e' => cases same
    | ok b => exact .ok (Except.ok.inj same)

theorem Agree.map_eq {T : α → α → Prop} {x y : Decoded α} (agree : Agree Eq T x y) {f : α → γ}
    (sees : ∀ a b, T a b → f a = f b) : x.map f = y.map f := by
  cases agree with
  | error related => exact congrArg Except.error related
  | ok related => exact congrArg Except.ok (sees _ _ related)

end Agree

end StrictSchema.Json
