import TokenKeeper.Tasks

/-!
# Tasks that keep to rules

What a move of a task pool can do is said once: a task takes a step that is enabled, or one that it
owes, or is cancelled, or the clock is set. All steps of a program are allowed if every step that it
may come to take is, as long as the answers are such as can be expected. In a pool of such programs
all steps are allowed, in any order of moves.
-/
namespace TokenKeeper

variable {α β : Type}

/-! ### Moves -/

/-- The steps that no store takes part in. -/
def Op.isOuter : Op → Bool
  | .now | .post _ | .send _ | .count _ | .checkout _ | .acquire _ | .release _ | .retire _
  | .forget _ => true
  | _ => false

def Op.isLocking : Op → Bool
  | .checkout _ | .acquire _ | .release _ | .retire _ | .forget _ => true
  | _ => false

theorem Op.isOuter_of_isLocking {op : Op} (h : op.isLocking = true) : op.isOuter = true := by
  cases op <;> first | contradiction | rfl

namespace TaskPool

theorem set_self {c : TaskPool α} {i : Nat} {t : Task α} (ht : c.tasks[i]? = some t) :
    c.tasks.set i t = c.tasks := by
  obtain ⟨hi, hget⟩ := List.getElem?_eq_some_iff.mp ht
  rw [← hget]
  exact List.set_getElem_self hi

theorem move_run_step {c : TaskPool α} {i : Nat} {op : Op} {next : op.Answer → Program α}
    {owed : List Op} (ht : c.tasks[i]? = some (.running (.step op next) owed))
    (he : World.enabled op c.world = true) {a : op.Answer} {w : World}
    (hop : World.perform op c.world = (a, w)) :
    c.move (.run i) = ⟨c.tasks.set i (.running (next a) (Task.owe owed op a)), w⟩ := by
  simp only [move, change, ht, Task.advance, he, if_true, hop]

theorem task_move_run {c : TaskPool α} {i : Nat} {op : Op} {next : op.Answer → Program α}
    {owed : List Op} (ht : c.tasks[i]? = some (.running (.step op next) owed))
    (he : World.enabled op c.world = true) {a : op.Answer} {w : World}
    (hop : World.perform op c.world = (a, w)) :
    (c.move (.run i)).tasks[i]? = some (.running (next a) (Task.owe owed op a)) ∧
      (c.move (.run i)).world = w := by
  obtain ⟨hi, -⟩ := List.getElem?_eq_some_iff.mp ht
  rw [move_run_step ht he hop]
  exact ⟨List.getElem?_set_self hi, rfl⟩

theorem move_run_cases (c : TaskPool α) (i : Nat) :
    c.move (.run i) = c ∨
    (∃ (op : Op) (next : op.Answer → Program α) (owed : List Op),
      c.tasks[i]? = some (.running (.step op next) owed) ∧ World.enabled op c.world = true ∧
      c.move (.run i) = ⟨c.tasks.set i (.running (next (World.perform op c.world).1)
        (Task.owe owed op (World.perform op c.world).1)), (World.perform op c.world).2⟩) ∨
    (∃ op owed, c.tasks[i]? = some (.leaving (op :: owed)) ∧
      c.move (.run i) = ⟨c.tasks.set i (.leaving owed), (World.perform op c.world).2⟩) := by
  cases ht : c.tasks[i]? with
  | none =>
    left
    simp only [move, change, ht]
  | some t =>
    have hsame := set_self ht
    cases t with
    | running p owed =>
      cases p with
      | done a =>
        left
        simp only [move, change, ht, Task.advance, hsame]
      | fail e =>
        left
        simp only [move, change, ht, Task.advance, hsame]
      | step op next =>
        cases he : World.enabled op c.world with
        | true => exact Or.inr (Or.inl ⟨op, next, owed, rfl, he, move_run_step ht he rfl⟩)
        | false =>
          left
          simp only [move, change, ht, Task.advance, he, Bool.false_eq_true, if_false, hsame]
    | leaving owed =>
      cases owed with
      | nil =>
        left
        simp only [move, change, ht, Task.advance, hsame]
      | cons op owed =>
        refine Or.inr (Or.inr ⟨op, owed, rfl, ?_⟩)
        simp only [move, change, ht, Task.advance]

theorem move_cancel_cases (c : TaskPool α) (i : Nat) :
    c.move (.cancel i) = c ∨
    ∃ p owed, c.tasks[i]? = some (.running p owed) ∧
      c.move (.cancel i) = ⟨c.tasks.set i (.leaving owed), c.world⟩ := by
  cases ht : c.tasks[i]? with
  | none =>
    left
    simp only [move, change, ht]
  | some t =>
    cases t with
    | running p owed =>
      refine Or.inr ⟨p, owed, rfl, ?_⟩
      simp only [move, change, ht, Task.cancel]
    | leaving owed =>
      left
      simp only [move, change, ht, Task.cancel, set_self ht]

theorem after_cons (c : TaskPool α) (m : Move) (ms : List Move) :
    c.after (m :: ms) = (c.move m).after ms :=
  List.foldl_cons

theorem after_append (c : TaskPool α) (as bs : List Move) :
    c.after (as ++ bs) = (c.after as).after bs := by
  rw [after, List.foldl_append]
  rfl

theorem after_concat (c : TaskPool α) (ms : List Move) (m : Move) :
    c.after (ms ++ [m]) = (c.after ms).move m :=
  after_append c ms [m]

theorem after_two (c : TaskPool α) (i : Nat) (first second : List Move) :
    c.after (.run i :: (first ++ .run i :: second)) =
      (((c.move (.run i)).after first).move (.run i)).after second :=
  after_append (c.move (.run i)) first (.run i :: second)

theorem after_three (c : TaskPool α) (i : Nat) (first second : List Move) :
    c.after (.run i :: (first ++ .run i :: (second ++ [.run i]))) =
      ((((c.move (.run i)).after first).move (.run i)).after second).move (.run i) := by
  rw [after_two, after_concat]

theorem task_move_other {c : TaskPool α} {i : Nat} {m : Move} (hrun : m ≠ .run i)
    (hcancel : m ≠ .cancel i) : (c.move m).tasks[i]? = c.tasks[i]? := by
  cases m with
  | run j =>
    have hj : j ≠ i := fun he => hrun (he ▸ rfl)
    rcases c.move_run_cases j with h | ⟨op, next, owed, -, -, h⟩ | ⟨op, owed, -, h⟩
    · rw [h]
    · rw [h]
      exact List.getElem?_set_ne hj
    · rw [h]
      exact List.getElem?_set_ne hj
  | cancel j =>
    have hj : j ≠ i := fun he => hcancel (he ▸ rfl)
    rcases c.move_cancel_cases j with h | ⟨p, owed, -, h⟩
    · rw [h]
    · rw [h]
      exact List.getElem?_set_ne hj
  | clock now => rfl

end TaskPool

/-- Moves of others, which leave a task where it stands. -/
def Others (i : Nat) (ms : List Move) : Prop := ∀ m ∈ ms, m ≠ .run i ∧ m ≠ .cancel i

theorem TaskPool.task_after_others {i : Nat} {ms : List Move} (h : Others i ms) (c : TaskPool α) :
    (c.after ms).tasks[i]? = c.tasks[i]? := by
  induction ms generalizing c with
  | nil => rfl
  | cons m ms ih =>
    obtain ⟨hrun, hcancel⟩ := h m List.mem_cons_self
    have hrest := ih (fun m' hm' => h m' (List.mem_cons_of_mem m hm')) (c.move m)
    exact hrest.trans (task_move_other hrun hcancel)

/-! ### Rules for programs -/

/-- All steps that a program may come to take are allowed, given answers to be expected. -/
def Program.AllSteps (allowed : Op → Prop) (expected : (op : Op) → op.Answer → Prop) :
    Program α → Prop
  | .done _ => True
  | .fail _ => True
  | .step op next => allowed op ∧ ∀ a, expected op a → (next a).AllSteps allowed expected

/-- A program that ends after at most so many steps, all of which are allowed. -/
def Program.TakesAtMost (allowed : Op → Prop) : Nat → Program α → Prop
  | _, .done _ => True
  | _, .fail _ => True
  | 0, .step _ _ => False
  | n + 1, .step op next => allowed op ∧ ∀ a, (next a).TakesAtMost allowed n

def Task.AllSteps (allowed : Op → Prop) (expected : (op : Op) → op.Answer → Prop) : Task α → Prop
  | .running p owed => p.AllSteps allowed expected ∧ ∀ op ∈ owed, op.isOuter = true
  | .leaving owed => ∀ op ∈ owed, op.isOuter = true

section

variable {allowed : Op → Prop} {expected : (op : Op) → op.Answer → Prop}

namespace Program

theorem bind_assoc {γ : Type} (p : Program α) (f : α → Program β) (g : β → Program γ) :
    (p.bind f).bind g = p.bind fun a => (f a).bind g := by
  induction p with
  | done a => rfl
  | fail e => rfl
  | step op next ih => exact congrArg (step op) (funext ih)

theorem allSteps_bind {p : Program α} {f : α → Program β} (hp : p.AllSteps allowed expected)
    (hf : ∀ a, (f a).AllSteps allowed expected) : (p.bind f).AllSteps allowed expected := by
  induction p with
  | done a => exact hf a
  | fail e => exact trivial
  | step op next ih => exact ⟨hp.1, fun a ha => ih a (hp.2 a ha)⟩

theorem allSteps_perform {op : Op} (h : allowed op) : (perform op).AllSteps allowed expected :=
  ⟨h, fun _ _ => trivial⟩

theorem allSteps_ofExcept (r : Except Failure α) : (ofExcept r).AllSteps allowed expected := by
  cases r <;> exact trivial

theorem allSteps_attempt {p : Program α} (hp : p.AllSteps allowed expected) :
    p.attempt.AllSteps allowed expected := by
  induction p with
  | done a => exact trivial
  | fail e => exact trivial
  | step op next ih => exact ⟨hp.1, fun a ha => ih a (hp.2 a ha)⟩

theorem AllSteps.mono {allowed' : Op → Prop} {p : Program α} (hp : p.AllSteps allowed expected)
    (h : ∀ op, allowed op → allowed' op) : p.AllSteps allowed' expected := by
  induction p with
  | done a => exact trivial
  | fail e => exact trivial
  | step op next ih => exact ⟨h op hp.1, fun a ha => ih a (hp.2 a ha)⟩

theorem AllSteps.run {σ : Type} {act : (op : Op) → σ → op.Answer × σ} {kept : σ → Prop}
    (hkept : ∀ op s, allowed op → kept s → expected op (act op s).1 ∧ kept (act op s).2)
    {p : Program α} (hp : p.AllSteps allowed expected) {s : σ} (hs : kept s) :
    kept (p.run act s).2 := by
  induction p generalizing s with
  | done a => exact hs
  | fail e => exact hs
  | step op next ih =>
    obtain ⟨hanswer, hafter⟩ := hkept op s hp.1 hs
    exact ih _ (hp.2 _ hanswer) hafter

namespace TakesAtMost

variable {p : Program α} {n k : Nat}

theorem mono (h : p.TakesAtMost allowed n) (hk : n ≤ k) : p.TakesAtMost allowed k := by
  induction p generalizing n k with
  | done a => cases k <;> exact trivial
  | fail e => cases k <;> exact trivial
  | step op next ih =>
    cases n with
    | zero => exact h.elim
    | succ n =>
      obtain ⟨k, rfl⟩ := Nat.exists_eq_add_of_le hk
      rw [Nat.add_right_comm]
      exact ⟨h.1, fun a => ih a (h.2 a) (Nat.le_add_right n k)⟩

theorem bind {f : α → Program β} (h : p.TakesAtMost allowed n)
    (hf : ∀ a, (f a).TakesAtMost allowed k) : (p.bind f).TakesAtMost allowed (n + k) := by
  induction p generalizing n with
  | done a => exact (hf a).mono (Nat.le_add_left k n)
  | fail e => cases n + k <;> exact trivial
  | step op next ih =>
    cases n with
    | zero => exact h.elim
    | succ n =>
      rw [Nat.add_right_comm]
      exact ⟨h.1, fun a => ih a (h.2 a)⟩

theorem attempt (h : p.TakesAtMost allowed n) : p.attempt.TakesAtMost allowed n := by
  induction p generalizing n with
  | done a => cases n <;> exact trivial
  | fail e => cases n <;> exact trivial
  | step op next ih =>
    cases n with
    | zero => exact h.elim
    | succ n => exact ⟨h.1, fun a => ih a (h.2 a)⟩

theorem imp {allowed' : Op → Prop} (h : p.TakesAtMost allowed n)
    (himp : ∀ op, allowed op → allowed' op) : p.TakesAtMost allowed' n := by
  induction p generalizing n with
  | done a => cases n <;> exact trivial
  | fail e => cases n <;> exact trivial
  | step op next ih =>
    cases n with
    | zero => exact h.elim
    | succ n => exact ⟨himp op h.1, fun a => ih a (h.2 a)⟩

theorem allSteps (h : p.TakesAtMost allowed n) : p.AllSteps allowed expected := by
  induction p generalizing n with
  | done a => exact trivial
  | fail e => exact trivial
  | step op next ih =>
    cases n with
    | zero => exact h.elim
    | succ n => exact ⟨h.1, fun a _ => ih a (h.2 a)⟩

end TakesAtMost

theorem takesAtMost_ofExcept (r : Except Failure α) (n : Nat) :
    (ofExcept r).TakesAtMost allowed n := by
  cases r <;> cases n <;> exact trivial

theorem takesAtMost_perform {op : Op} (h : allowed op) : (perform op).TakesAtMost allowed 1 :=
  ⟨h, fun _ => trivial⟩

end Program

theorem Task.owe_outer {owed : List Op} (h : ∀ op ∈ owed, op.isOuter = true) (op : Op)
    (a : op.Answer) : ∀ o ∈ Task.owe owed op a, o.isOuter = true := by
  intro o ho
  cases op with
  | checkout key =>
    rcases List.mem_cons.mp ho with rfl | ho
    · rfl
    · rcases List.mem_cons.mp ho with rfl | ho
      · rfl
      · exact h o ho
  | acquire slot =>
    rcases List.mem_cons.mp ho with rfl | ho
    · rfl
    · exact h o ho
  | release slot => exact h o (List.mem_of_mem_drop ho)
  | retire slot => exact h o (List.mem_of_mem_drop ho)
  | forget slot => exact h o (List.mem_of_mem_drop ho)
  | _ => exact h o ho

namespace TaskPool

def AllSteps (allowed : Op → Prop) (expected : (op : Op) → op.Answer → Prop) (c : TaskPool α) :
    Prop :=
  ∀ t ∈ c.tasks, t.AllSteps allowed expected

theorem AllSteps.set {c : TaskPool α} (h : c.AllSteps allowed expected) {t : Task α}
    (ht : t.AllSteps allowed expected) (i : Nat) (w : World) :
    AllSteps allowed expected ⟨c.tasks.set i t, w⟩ := by
  intro u hu
  rcases List.mem_or_eq_of_mem_set hu with hu | rfl
  · exact h u hu
  · exact ht

theorem AllSteps.move {c : TaskPool α} (h : c.AllSteps allowed expected)
    (houter : ∀ op : Op, op.isOuter = true → allowed op)
    (hexpected : ∀ op, allowed op → expected op (World.perform op c.world).1) (m : Move) :
    (c.move m).AllSteps allowed expected ∧
      ((∃ op, allowed op ∧ (c.move m).world = (World.perform op c.world).2) ∨
        ∃ now, (c.move m).world = { c.world with clock := now }) := by
  have hstay : (c.move m).world = c.world →
      ∃ now, (c.move m).world = { c.world with clock := now } := fun he => ⟨c.world.clock, he⟩
  cases m with
  | run i =>
    rcases c.move_run_cases i with hm | ⟨op, next, owed, ht, -, hm⟩ | ⟨op, owed, ht, hm⟩
    · exact ⟨by rw [hm]; exact h, Or.inr (hstay (by rw [hm]))⟩
    · obtain ⟨hp, howed⟩ := h _ (List.mem_of_getElem? ht)
      have ht' : Task.AllSteps allowed expected (.running (next (World.perform op c.world).1)
          (Task.owe owed op (World.perform op c.world).1)) :=
        ⟨hp.2 _ (hexpected op hp.1), Task.owe_outer howed op _⟩
      rw [hm]
      exact ⟨h.set ht' i _, Or.inl ⟨op, hp.1, rfl⟩⟩
    · have howed : ∀ o ∈ op :: owed, o.isOuter = true := h _ (List.mem_of_getElem? ht)
      have ht' : Task.AllSteps (α := α) allowed expected (.leaving owed) :=
        fun o ho => howed o (List.mem_cons_of_mem _ ho)
      rw [hm]
      exact ⟨h.set ht' i _, Or.inl ⟨op, houter op (howed op List.mem_cons_self), rfl⟩⟩
  | cancel i =>
    rcases c.move_cancel_cases i with hm | ⟨p, owed, ht, hm⟩
    · exact ⟨by rw [hm]; exact h, Or.inr (hstay (by rw [hm]))⟩
    · obtain ⟨-, howed⟩ := h _ (List.mem_of_getElem? ht)
      refine ⟨?_, Or.inr (hstay (by rw [hm]))⟩
      have ht' : Task.AllSteps (α := α) allowed expected (.leaving owed) := howed
      rw [hm]
      exact h.set ht' i _
  | clock now => exact ⟨h, Or.inr ⟨now, rfl⟩⟩

end TaskPool

end

end TokenKeeper
