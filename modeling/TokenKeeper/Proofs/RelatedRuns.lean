import TokenKeeper.World

/-!
# Related runs

Two programs are related when from related worlds they end in the same way, with related results,
and leave related worlds behind. There is one law for each way to build a program, so that two
programs of the same build are related as soon as the parts in which they differ are.
-/
namespace TokenKeeper

variable {α β γ δ : Type}

def SameEnd (R : α → β → Prop) : Except Failure α → Except Failure β → Prop
  | .ok a, .ok b => R a b
  | .error e, .error e' => e = e'
  | _, _ => False

theorem SameEnd.eq {r s : Except Failure α} (h : SameEnd Eq r s) : r = s := by
  cases r with
  | ok a =>
    cases s with
    | ok b => exact congrArg _ h
    | error e => exact h.elim
  | error e =>
    cases s with
    | ok b => exact h.elim
    | error e' => exact congrArg _ h

theorem sameEnd_self (r : Except Failure α) : SameEnd Eq r r := by
  cases r <;> rfl

/-- From related worlds both end in the same way, and in related worlds. -/
def Related (Worlds : World → World → Prop) (R : α → β → Prop) (p : Program α) (q : Program β) :
    Prop :=
  ∀ w w', Worlds w w' →
    SameEnd R (p.run World.perform w).1 (q.run World.perform w').1 ∧
      Worlds (p.run World.perform w).2 (q.run World.perform w').2

namespace Related

variable {Worlds : World → World → Prop}

theorem done {R : α → β → Prop} {a : α} {b : β} (h : R a b) :
    Related Worlds R (.done a) (.done b) :=
  fun _ _ ht => ⟨h, ht⟩

theorem fail {R : α → β → Prop} (e : Failure) : Related Worlds R (.fail e) (.fail e) :=
  fun _ _ ht => ⟨rfl, ht⟩

theorem ofExcept {R : α → β → Prop} {r : Except Failure α} {s : Except Failure β}
    (h : SameEnd R r s) : Related Worlds R (Program.ofExcept r) (Program.ofExcept s) := by
  cases r with
  | ok a =>
    cases s with
    | ok b => exact done h
    | error e => exact h.elim
  | error e =>
    cases s with
    | ok b => exact h.elim
    | error e' =>
      cases h
      exact fail e

theorem bind_run {R : α → β → Prop} {S : γ → δ → Prop} {p : Program α} {q : Program β}
    {f : α → Program γ} {g : β → Program δ} (h : Related Worlds R p q)
    (hf : ∀ {a b w w' v v'}, R a b → p.run World.perform w = (.ok a, v) →
      q.run World.perform w' = (.ok b, v') → Worlds v v' →
      SameEnd S ((f a).run World.perform v).1 ((g b).run World.perform v').1 ∧
        Worlds ((f a).run World.perform v).2 ((g b).run World.perform v').2) :
    Related Worlds S (p.bind f) (q.bind g) := by
  intro w w' ht
  obtain ⟨hend, hworlds⟩ := h w w' ht
  rw [Program.run_bind, Program.run_bind]
  cases hp : p.run World.perform w with
  | mk r v =>
    cases hq : q.run World.perform w' with
    | mk s v' =>
      rw [hp, hq] at hend hworlds
      cases r with
      | ok a =>
        cases s with
        | ok b => exact hf hend hp hq hworlds
        | error e => exact hend.elim
      | error e =>
        cases s with
        | ok b => exact hend.elim
        | error e' => exact ⟨hend, hworlds⟩

theorem bind {R : α → β → Prop} {S : γ → δ → Prop} {p : Program α} {q : Program β}
    {f : α → Program γ} {g : β → Program δ} (h : Related Worlds R p q)
    (hf : ∀ a b, R a b → Related Worlds S (f a) (g b)) : Related Worlds S (p.bind f) (q.bind g) :=
  h.bind_run fun hab _ _ hworlds => hf _ _ hab _ _ hworlds

theorem attempt {R : α → β → Prop} {p : Program α} {q : Program β} (h : Related Worlds R p q) :
    Related Worlds (SameEnd R) p.attempt q.attempt := by
  intro w w' ht
  obtain ⟨hend, hworlds⟩ := h w w' ht
  rw [Program.run_attempt, Program.run_attempt]
  exact ⟨hend, hworlds⟩

theorem perform {op : Op}
    (h : ∀ w w', Worlds w w' → (World.perform op w).1 = (World.perform op w').1 ∧
      Worlds (World.perform op w).2 (World.perform op w').2) :
    Related Worlds Eq (Program.perform op) (Program.perform op) := h

end Related
end TokenKeeper
