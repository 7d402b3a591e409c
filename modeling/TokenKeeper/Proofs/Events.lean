import Mathlib.Logic.Function.Basic
import TokenKeeper.Proofs.Tasks

/-!
# What happens among tasks

An event is a step that a task took, with the answer that it got; the events of a run of moves, in
order, are its history. A discipline says which steps a task may take in each phase of its work, and
what phase a step leads to. Tasks that keep to their disciplines can be reasoned about by phases,
without their programs: what each allowed step upholds holds after all moves, whatever their order.
-/
namespace TokenKeeper

variable {α β Phase : Type}

structure Event where
  task : Nat
  op : Op
  answer : op.Answer

def Task.owed : Task α → List Op
  | .running _ owed => owed
  | .leaving owed => owed

namespace TaskPool

/-- The step that a move takes, if it takes one. -/
def event? (c : TaskPool α) : Move → Option Event
  | .run i =>
    match c.tasks[i]? with
    | some (.running (.step op _) _) =>
      if World.enabled op c.world then some ⟨i, op, (World.perform op c.world).1⟩ else none
    | some (.leaving (op :: _)) => some ⟨i, op, (World.perform op c.world).1⟩
    | _ => none
  | _ => none

theorem event?_run {c : TaskPool α} {i : Nat} {op : Op} {next : op.Answer → Program α}
    {owed : List Op} (ht : c.tasks[i]? = some (.running (.step op next) owed))
    (he : World.enabled op c.world = true) :
    c.event? (.run i) = some ⟨i, op, (World.perform op c.world).1⟩ := by
  simp only [event?, ht, he, if_true]

def events (c : TaskPool α) : List Move → List Event
  | [] => []
  | m :: ms => (c.event? m).toList ++ (c.move m).events ms

theorem events_append (c : TaskPool α) (as bs : List Move) :
    c.events (as ++ bs) = c.events as ++ (c.after as).events bs := by
  induction as generalizing c with
  | nil => rfl
  | cons m as ih =>
    rw [List.cons_append, events, events, ih (c.move m), List.append_assoc]
    rfl

theorem move_of_events {c : TaskPool α} {ms : List Move} {past later : List Event} {e : Event}
    (h : c.events ms = past ++ e :: later) :
    ∃ before m after, ms = before ++ m :: after ∧ c.events before = past ∧
      (c.after before).event? m = some e ∧ ((c.after before).move m).events after = later := by
  induction ms generalizing c past with
  | nil => exact absurd h.symm (List.append_ne_nil_of_right_ne_nil past (List.cons_ne_nil e later))
  | cons m ms ih =>
    rw [events] at h
    cases he : c.event? m with
    | none =>
      rw [he] at h
      obtain ⟨before, m', after, rfl, hpast, hevent, hlater⟩ := ih h
      refine ⟨m :: before, m', after, rfl, ?_, hevent, hlater⟩
      rw [events, he, hpast]
      rfl
    | some first =>
      rw [he] at h
      cases past with
      | nil =>
        obtain ⟨rfl, hlater⟩ := List.cons.inj h
        exact ⟨[], m, ms, rfl, rfl, he, hlater⟩
      | cons p past =>
        obtain ⟨rfl, hrest⟩ := List.cons.inj h
        obtain ⟨before, m', after, rfl, hpast, hevent, hlater⟩ := ih hrest
        refine ⟨m :: before, m', after, rfl, ?_, hevent, hlater⟩
        rw [events, he, hpast]
        rfl

/-- All that a move can do, and the step that it takes. -/
inductive MoveCases (c : TaskPool α) : TaskPool α → Option Event → Prop
  | idle : MoveCases c c none
  | step {i : Nat} {op : Op} {next : op.Answer → Program α} {owed : List Op}
    (ht : c.tasks[i]? = some (.running (.step op next) owed))
    (he : World.enabled op c.world = true) :
    MoveCases c ⟨c.tasks.set i (.running (next (World.perform op c.world).1)
      (Task.owe owed op (World.perform op c.world).1)), (World.perform op c.world).2⟩
      (some ⟨i, op, (World.perform op c.world).1⟩)
  | due {i : Nat} {op : Op} {owed : List Op} (ht : c.tasks[i]? = some (.leaving (op :: owed))) :
    MoveCases c ⟨c.tasks.set i (.leaving owed), (World.perform op c.world).2⟩
      (some ⟨i, op, (World.perform op c.world).1⟩)
  | stop {i : Nat} {p : Program α} {owed : List Op}
    (ht : c.tasks[i]? = some (.running p owed)) :
    MoveCases c ⟨c.tasks.set i (.leaving owed), c.world⟩ none
  | clock (now : Instant) : MoveCases c { c with world := { c.world with clock := now } } none

theorem moveCases (c : TaskPool α) (m : Move) : c.MoveCases (c.move m) (c.event? m) := by
  cases m with
  | run i =>
    cases ht : c.tasks[i]? with
    | none =>
      simp only [move, change, event?, ht]
      exact .idle
    | some t =>
      have hsame := set_self ht
      cases t with
      | running p owed =>
        cases p with
        | done a =>
          simp only [move, change, event?, ht, Task.advance, hsame]
          exact .idle
        | fail e =>
          simp only [move, change, event?, ht, Task.advance, hsame]
          exact .idle
        | step op next =>
          cases he : World.enabled op c.world with
          | true =>
            simp only [event?, ht, he, if_true, move_run_step ht he rfl]
            exact .step ht he
          | false =>
            simp only [move, change, event?, ht, Task.advance, he, Bool.false_eq_true, if_false,
              hsame]
            exact .idle
      | leaving owed =>
        cases owed with
        | nil =>
          simp only [move, change, event?, ht, Task.advance, hsame]
          exact .idle
        | cons op owed =>
          simp only [move, change, event?, ht, Task.advance]
          exact .due ht
  | cancel i =>
    rcases c.move_cancel_cases i with h | ⟨p, owed, ht, h⟩
    · rw [h]
      exact .idle
    · rw [h]
      exact .stop ht
  | clock now => exact .clock now

theorem length_move (c : TaskPool α) (m : Move) : (c.move m).tasks.length = c.tasks.length := by
  have hcases := c.moveCases m
  generalize c.move m = c' at hcases ⊢
  generalize c.event? m = e at hcases
  cases hcases with
  | idle => rfl
  | step ht he => exact List.length_set
  | due ht => exact List.length_set
  | stop ht => exact List.length_set
  | clock now => rfl

theorem length_after (c : TaskPool α) (ms : List Move) :
    (c.after ms).tasks.length = c.tasks.length := by
  induction ms generalizing c with
  | nil => rfl
  | cons m ms ih => exact (ih (c.move m)).trans (c.length_move m)

end TaskPool

/-! ### Disciplines -/

/-- The steps that a task may take in each phase, going by what it owes and given answers to be
expected, and the phases that they lead to. -/
structure Discipline (Phase : Type) where
  allows : List Op → Phase → Op → Prop
  expects : Phase → (op : Op) → op.Answer → Prop
  next : Phase → (op : Op) → op.Answer → Phase
  gone : Phase

def Program.Obeys (d : Discipline Phase) (ends : List Op → Phase → Except Failure α → Prop) :
    Program α → List Op → Phase → Prop
  | .done a, owed, phase => ends owed phase (.ok a)
  | .fail e, owed, phase => ends owed phase (.error e)
  | .step op next, owed, phase => d.allows owed phase op ∧ ∀ a, d.expects phase op a →
    (next a).Obeys d ends (Task.owe owed op a) (d.next phase op a)

def Task.Obeys (d : Discipline Phase) (ends : List Op → Phase → Except Failure α → Prop)
    (phase : Phase) : Task α → Prop
  | .running p owed => p.Obeys d ends owed phase ∧ ∀ op ∈ owed, op.isOuter = true
  | .leaving owed => phase = d.gone ∧ ∀ op ∈ owed, op.isOuter = true

namespace Program

variable {d : Discipline Phase} {mid : List Op → Phase → Except Failure α → Prop}
  {owed : List Op} {phase : Phase}

theorem Obeys.mono {ends : List Op → Phase → Except Failure α → Prop} {p : Program α}
    (hp : p.Obeys d mid owed phase) (h : ∀ owed phase r, mid owed phase r → ends owed phase r) :
    p.Obeys d ends owed phase := by
  induction p generalizing owed phase with
  | done a => exact h _ _ _ hp
  | fail e => exact h _ _ _ hp
  | step op next ih => exact ⟨hp.1, fun a ha => ih a (hp.2 a ha)⟩

theorem Obeys.bind {ends : List Op → Phase → Except Failure β → Prop} {p : Program α}
    {f : α → Program β} (hp : p.Obeys d mid owed phase)
    (hf : ∀ owed phase a, mid owed phase (.ok a) → (f a).Obeys d ends owed phase)
    (he : ∀ owed phase e, mid owed phase (.error e) → ends owed phase (.error e)) :
    (p.bind f).Obeys d ends owed phase := by
  induction p generalizing owed phase with
  | done a => exact hf _ _ _ hp
  | fail e => exact he _ _ _ hp
  | step op next ih => exact ⟨hp.1, fun a ha => ih a (hp.2 a ha)⟩

theorem Obeys.attempt {ends : List Op → Phase → Except Failure (Except Failure α) → Prop}
    {p : Program α} (hp : p.Obeys d mid owed phase)
    (h : ∀ owed phase r, mid owed phase r → ends owed phase (.ok r)) :
    p.attempt.Obeys d ends owed phase := by
  induction p generalizing owed phase with
  | done a => exact h _ _ _ hp
  | fail e => exact h _ _ _ hp
  | step op next ih => exact ⟨hp.1, fun a ha => ih a (hp.2 a ha)⟩

theorem Obeys.ends {ends : List Op → Phase → Except Failure α → Prop} {p : Program α}
    (hp : p.Obeys d ends owed phase) {r : Except Failure α}
    (hr : (Task.running p owed).result? = some r) : ends owed phase r := by
  cases p with
  | step op next => cases hr
  | _ =>
    cases hr
    exact hp

theorem obeys_ofExcept {ends : List Op → Phase → Except Failure α → Prop} {r : Except Failure α}
    (h : ends owed phase r) : (ofExcept r).Obeys d ends owed phase := by
  cases r <;> exact h

end Program

/-! ### Pools whose tasks keep to disciplines -/

/-- What is known of a task pool at a moment: what its tasks owe, the world, the phases of the
tasks, and the history. -/
structure PoolState (Phase : Type) where
  owes : List (List Op)
  world : World
  phase : Nat → Phase
  past : List Event

namespace PoolState

def step (s : PoolState Phase) (i : Nat) (op : Op) (owed : List Op) (phase : Phase) :
    PoolState Phase where
  owes := s.owes.set i owed
  world := (World.perform op s.world).2
  phase := Function.update s.phase i phase
  past := s.past ++ [⟨i, op, (World.perform op s.world).1⟩]

def stop (s : PoolState Phase) (i : Nat) (gone : Phase) : PoolState Phase :=
  { s with phase := Function.update s.phase i gone }

def tick (s : PoolState Phase) (now : Instant) : PoolState Phase :=
  { s with world := { s.world with clock := now } }

end PoolState

/-- An invariant that every allowed step upholds, and that makes sure of the expected answers. -/
structure Upholds (d : Nat → Discipline Phase) (Inv : PoolState Phase → Prop) : Prop where
  step : ∀ {s i op owed}, Inv s → s.owes[i]? = some owed → World.enabled op s.world = true →
    (d i).allows owed (s.phase i) op →
      (d i).expects (s.phase i) op (World.perform op s.world).1 ∧
        Inv (s.step i op (Task.owe owed op (World.perform op s.world).1)
          ((d i).next (s.phase i) op (World.perform op s.world).1))
  due : ∀ {s i op owed}, Inv s → s.owes[i]? = some (op :: owed) → op.isOuter = true →
    s.phase i = (d i).gone → Inv (s.step i op owed (d i).gone)
  stop : ∀ {s i}, Inv s → Inv (s.stop i (d i).gone)
  clock : ∀ {s now}, Inv s → Inv (s.tick now)

namespace TaskPool

def owes (c : TaskPool α) : List (List Op) := c.tasks.map Task.owed

theorem owes_set (c : TaskPool α) (i : Nat) (t : Task α) (w : World) :
    owes ⟨c.tasks.set i t, w⟩ = c.owes.set i t.owed := List.map_set

theorem getElem?_owes {c : TaskPool α} {i : Nat} {t : Task α} (ht : c.tasks[i]? = some t) :
    c.owes[i]? = some t.owed := by
  rw [owes, List.getElem?_map, ht]
  rfl

variable {d : Nat → Discipline Phase}
  {ends : Nat → List Op → Phase → Except Failure α → Prop}

def Obeys (d : Nat → Discipline Phase) (ends : Nat → List Op → Phase → Except Failure α → Prop)
    (phase : Nat → Phase) (c : TaskPool α) : Prop :=
  ∀ (i : Nat) (t : Task α), c.tasks[i]? = some t → t.Obeys (d i) (ends i) (phase i)

theorem Obeys.set {phase : Nat → Phase} {c : TaskPool α} (h : c.Obeys d ends phase) {i : Nat}
    {t : Task α} {next : Phase} (ht : t.Obeys (d i) (ends i) next) (w : World) :
    Obeys d ends (Function.update phase i next) ⟨c.tasks.set i t, w⟩ := by
  intro j u hu
  by_cases hj : j = i
  · subst hj
    rw [Function.update_self]
    have hlength : j < (c.tasks.set j t).length := (List.getElem?_eq_some_iff.mp hu).1
    rw [List.length_set] at hlength
    rw [List.getElem?_set_self hlength] at hu
    cases hu
    exact ht
  · rw [Function.update_of_ne hj]
    rw [List.getElem?_set_ne (fun he => hj he.symm)] at hu
    exact h j u hu

variable {Inv : PoolState Phase → Prop}

theorem Obeys.move {phase : Nat → Phase} {c : TaskPool α} {past : List Event}
    (h : c.Obeys d ends phase) (hu : Upholds d Inv) (hi : Inv ⟨c.owes, c.world, phase, past⟩)
    (m : Move) : ∃ phase', (c.move m).Obeys d ends phase' ∧
      Inv ⟨(c.move m).owes, (c.move m).world, phase', past ++ (c.event? m).toList⟩ := by
  have hcases := c.moveCases m
  generalize c.move m = c' at hcases ⊢
  generalize c.event? m = e at hcases ⊢
  cases hcases with
  | idle =>
    refine ⟨phase, h, ?_⟩
    rw [Option.toList_none, List.append_nil]
    exact hi
  | @step i op next owed ht he =>
    obtain ⟨hp, howed⟩ := h i _ ht
    obtain ⟨hexpects, hinv⟩ := hu.step hi (getElem?_owes ht) he hp.1
    have ht' : Task.Obeys (d i) (ends i) ((d i).next (phase i) op (World.perform op c.world).1)
        (.running (next (World.perform op c.world).1)
          (Task.owe owed op (World.perform op c.world).1)) :=
      ⟨hp.2 _ hexpects, Task.owe_outer howed op _⟩
    refine ⟨_, h.set ht' _, ?_⟩
    rw [owes_set]
    exact hinv
  | @due i op owed ht =>
    obtain ⟨hgone, howed⟩ := h i _ ht
    have ht' : Task.Obeys (α := α) (d i) (ends i) (d i).gone (.leaving owed) :=
      ⟨rfl, fun o ho => howed o (List.mem_cons_of_mem _ ho)⟩
    have hinv := hu.due hi (getElem?_owes ht) (howed op List.mem_cons_self) hgone
    refine ⟨_, h.set ht' _, ?_⟩
    rw [owes_set]
    exact hinv
  | @stop i p owed ht =>
    obtain ⟨-, howed⟩ := h i _ ht
    have ht' : Task.Obeys (α := α) (d i) (ends i) (d i).gone (.leaving owed) := ⟨rfl, howed⟩
    refine ⟨_, h.set ht' _, ?_⟩
    have hsame : c.owes.set i owed = c.owes := by
      obtain ⟨hlength, hget⟩ := List.getElem?_eq_some_iff.mp (getElem?_owes ht)
      rw [← show c.owes[i] = owed from hget]
      exact List.set_getElem_self hlength
    rw [owes_set, Option.toList_none, List.append_nil, Task.owed, hsame]
    exact hu.stop hi
  | clock now =>
    refine ⟨phase, fun i t ht => h i t ht, ?_⟩
    rw [Option.toList_none, List.append_nil]
    exact hu.clock hi

theorem Obeys.after {phase : Nat → Phase} {c : TaskPool α} {past : List Event}
    (h : c.Obeys d ends phase) (hu : Upholds d Inv) (hi : Inv ⟨c.owes, c.world, phase, past⟩)
    (ms : List Move) : ∃ phase', (c.after ms).Obeys d ends phase' ∧
      Inv ⟨(c.after ms).owes, (c.after ms).world, phase', past ++ c.events ms⟩ := by
  induction ms generalizing c phase past with
  | nil =>
    refine ⟨phase, h, ?_⟩
    rw [events, List.append_nil]
    exact hi
  | cons m ms ih =>
    obtain ⟨phase', hmove, hinv⟩ := h.move hu hi m
    obtain ⟨phase'', hafter, hinv'⟩ := ih hmove hinv
    refine ⟨phase'', hafter, ?_⟩
    rw [events, ← List.append_assoc]
    exact hinv'

end TaskPool
end TokenKeeper
