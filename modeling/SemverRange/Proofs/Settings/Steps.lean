/-!
# Steps that can fail

What one step makes is handed to the next, and what it fails for ends them all.  So if every step
makes something good, or fails for a known reason, then so do they all.

## Main definitions

* `EndsIn` — a step makes something with one property, or fails for something with another.
* `FailsFor` — what a step fails for, if it does, has a property.
-/

namespace SemverRange

/-- The step makes something with the property `P`, or fails for something with the property `F`. -/
def EndsIn {ε α : Type} (P : α → Prop) (F : ε → Prop) : Except ε α → Prop
  | .ok a => P a
  | .error e => F e

/-- If the step fails, it does so for something with the property `F`. -/
abbrev FailsFor {ε α : Type} (F : ε → Prop) (x : Except ε α) : Prop := EndsIn (fun _ => True) F x

namespace EndsIn

variable {ε ε' α β : Type} {P P' : α → Prop} {Q : β → Prop} {F F' : ε → Prop} {x y : Except ε α}

/-- What a step makes is handed to the next. -/
theorem bind {f : α → Except ε β} (hx : EndsIn P F x) (hf : ∀ a, P a → EndsIn Q F (f a)) :
    EndsIn Q F (x >>= f) := by
  cases x with
  | ok a => exact hf a hx
  | error e => exact hx

theorem mono (hx : EndsIn P F x) (hP : ∀ a, P a → P' a) (hF : ∀ e, F e → F' e) :
    EndsIn P' F' x := by
  cases x with
  | ok a => exact hP a hx
  | error e => exact hF e hx

/-- What a step fails for implies something else, and what it makes is the same. -/
theorem mono_error (hx : EndsIn P F x) (hF : ∀ e, F e → F' e) : EndsIn P F' x :=
  hx.mono (fun _ => id) hF

theorem ite {p : Prop} [Decidable p] (hx : p → EndsIn P F x) (hy : EndsIn P F y) :
    EndsIn P F (if p then x else y) := by
  split
  · next hp => exact hx hp
  · exact hy

theorem map {g : α → β} (hx : EndsIn (fun a => Q (g a)) F x) : EndsIn Q F (g <$> x) := by
  cases x <;> exact hx

theorem mapError {G : ε' → Prop} {g : ε → ε'} (hx : EndsIn P (fun e => G (g e)) x) :
    EndsIn P G (x.mapError g) := by
  cases x <;> exact hx

/-- A traversal makes one thing for each, or fails as one of its steps. -/
theorem mapM {f : α → Except ε β} {as : List α} (h : ∀ a ∈ as, FailsFor F (f a)) :
    EndsIn (fun bs => bs.length = as.length) F (as.mapM f) := by
  induction as with
  | nil => rfl
  | cons a as ih =>
    rw [List.mapM_cons]
    refine (h a List.mem_cons_self).bind fun b _ => ?_
    refine (ih fun a' ha' => h a' (List.mem_cons_of_mem a ha')).bind fun bs hbs => ?_
    exact congrArg (· + 1) hbs

theorem of_error {e : ε} (hx : EndsIn P F x) (h : x = .error e) : F e := by
  rw [h] at hx
  exact hx

/-- Any step fails for what it fails for. -/
theorem self (x : Except ε α) : FailsFor (x = .error ·) x := by
  cases x with
  | ok a => trivial
  | error e => rfl

end EndsIn

end SemverRange
