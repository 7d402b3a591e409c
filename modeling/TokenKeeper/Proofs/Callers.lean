import Mathlib.Data.List.Basic
import TokenKeeper.Proofs.Client.Steps
import TokenKeeper.Proofs.PairedSteps

/-!
# Callers of many services

A service is a client with its collection, its entries in memory and its registry of locks. Services
share the clock, the disk, the database and the supply of nonces. A caller is a caller key at a
service, and the token endpoint answers each caller from a script of its own. The tasks of all
callers take turns, each in the world as its caller finds it. What happens to a caller depends on
that caller alone: without the others its tasks take the same steps.
-/
namespace TokenKeeper

variable {ι α : Type} [DecidableEq ι]

structure Service where
  collection : Collection
  memory : Dict StoredEntry
  flight : Flight

structure Caller (ι : Type) where
  service : ι
  key : String
  deriving DecidableEq

/-- A world that services share. The collection, entries, locks and endpoint in it are not used:
those of the service and the script of the caller take their place. -/
structure Services (ι : Type) where
  world : World
  service : ι → Service
  script : Caller ι → Endpoint

theorem World.held?_of_slice {w v : World} {key : String} (hw : w.Ready) (hv : v.Ready)
    (h : w.slice key = v.slice key) (b : StoreKind) : b.held? w key = b.held? v key := by
  obtain ⟨-, hcell, hentry, -⟩ := slice_eq_iff.mp h
  have hfind : w.find key = v.find key := by rw [hw.find, hv.find, hcell]
  cases b with
  | memory => exact hentry
  | documents => rw [StoreKind.held?, StoreKind.held?, hfind]
  | sealedDocuments ck => rw [StoreKind.held?, StoreKind.held?, hfind]

namespace Services

variable {S : Services ι} {s t : Caller ι} {w : World}

def view (S : Services ι) (s : Caller ι) : World :=
  { S.world with
    collection := (S.service s.service).collection
    memory := (S.service s.service).memory
    flight := (S.service s.service).flight
    endpoint := S.script s }

def put (S : Services ι) (s : Caller ι) (w : World) : Services ι where
  world := w
  service := Function.update S.service s.service ⟨w.collection, w.memory, w.flight⟩
  script := Function.update S.script s w.endpoint

def tick (S : Services ι) (now : Instant) : Services ι :=
  { S with world := { S.world with clock := now } }

def slice (S : Services ι) (s : Caller ι) : Slice := (S.view s).slice s.key

/-- Every collection is open and takes all writes, and different services have tables of different
names. -/
structure Sound (S : Services ι) : Prop where
  ready : ∀ s, (S.view s).Ready
  apart : ∀ d e, d ≠ e → ∃ name other, (S.service d).collection = .table name ∧
    (S.service e).collection = .table other ∧ name ≠ other

theorem service_put_self (S : Services ι) (s : Caller ι) (w : World) :
    (S.put s w).service s.service = ⟨w.collection, w.memory, w.flight⟩ := Function.update_self _ _ _

theorem service_put_other (w : World) {d : ι} (h : d ≠ s.service) :
    (S.put s w).service d = S.service d :=
  Function.update_of_ne h _ _

theorem script_put_self (S : Services ι) (s : Caller ι) (w : World) :
    (S.put s w).script s = w.endpoint := Function.update_self _ _ _

theorem script_put_other (w : World) (h : t ≠ s) : (S.put s w).script t = S.script t :=
  Function.update_of_ne h _ _

theorem view_put_self (S : Services ι) (s : Caller ι) (w : World) : (S.put s w).view s = w := by
  rw [view, service_put_self, script_put_self]
  rfl

theorem view_put_pairedWorlds (w : World) (hservice : t.service = s.service) (hne : t ≠ s) :
    (S.put s w).view t = { w with endpoint := S.script t } := by
  rw [view, hservice, service_put_self, script_put_other w hne]
  rfl

theorem view_put_other (w : World) (h : t.service ≠ s.service) :
    (S.put s w).view t = { w with
      collection := (S.service t.service).collection
      memory := (S.service t.service).memory
      flight := (S.service t.service).flight
      endpoint := S.script t } := by
  have hne : t ≠ s := fun he => h (he ▸ rfl)
  rw [view, service_put_other w h, script_put_other w hne]
  rfl

def Supplies (S : Services ι) (nonces : List Nonce) : Prop :=
  ∀ k n, nonces[k]? = some n → S.world.nonces (S.world.drawn + k) = n

omit [DecidableEq ι] in
theorem Supplies.head {n? : Option Nonce} {rest : List Nonce}
    (h : S.Supplies (n?.toList ++ rest)) : ∀ n ∈ n?, S.world.nonces S.world.drawn = n := by
  rintro n rfl
  exact h 0 n rfl

omit [DecidableEq ι] in
theorem Supplies.tail {S' : Services ι} {first rest : List Nonce} (h : S.Supplies (first ++ rest))
    (hnonces : S'.world.nonces = S.world.nonces)
    (hdrawn : S'.world.drawn = S.world.drawn + first.length) : S'.Supplies rest := by
  intro k n hk
  rw [hnonces, hdrawn, Nat.add_assoc]
  refine h (first.length + k) n ?_
  rw [List.getElem?_append_right (Nat.le_add_right _ _), Nat.add_sub_cancel_left]
  exact hk

theorem Sound.slice_put (h : S.Sound) (hw : (S.view s).KeepsOthers s.key w) (hne : t ≠ s) :
    (S.put s w).slice t = S.slice t := by
  by_cases hservice : t.service = s.service
  · have hkey : t.key ≠ s.key := fun hkey => hne <| by
      cases t
      cases s
      cases hservice
      cases hkey
      rfl
    have hcell : (S.view s).cell t.key = (S.view t).cell t.key := by
      rw [World.cell, World.cell, view, view, hservice]
      rfl
    have hmemory : (S.view s).memory = (S.view t).memory := by rw [view, view, hservice]
    rw [slice, slice, view_put_pairedWorlds w hservice hne]
    exact World.slice_eq_iff.mpr ⟨hw.clock, (hw.cells t.key hkey).trans hcell,
      (hw.entries t.key hkey).trans (congrArg (Dict.get? · t.key) hmemory), rfl⟩
  · obtain ⟨name, other, hname, hother, hne⟩ := h.apart t.service s.service hservice
    rw [slice, slice, view_put_other w hservice]
    have hrows := hw.rows name (fun hc => hne (Collection.table.inj (hc.symm.trans hother))) t.key
    refine World.slice_eq_iff.mpr ⟨hw.clock, ?_, rfl, rfl⟩
    rw [World.cell_of_table hname, World.cell_of_table (w := S.view t) hname]
    exact congrArg Cell.row hrows

theorem Sound.collection_put (h : S.Sound) (hw : (S.view s).KeepsOthers s.key w) {d e : ι}
    (hne : d ≠ e) : ((S.put s w).service d).collection = (S.service d).collection := by
  by_cases hservice : d = s.service
  · obtain ⟨name, -, hname, -⟩ := h.apart d e hne
    subst hservice
    rw [service_put_self, hname]
    exact hw.table name hname
  · rw [service_put_other w hservice]

theorem Sound.put (h : S.Sound) (hw : (S.view s).KeepsOthers s.key w) : (S.put s w).Sound where
  ready t := by
    by_cases hservice : t.service = s.service
    · by_cases hne : t = s
      · rw [hne, view_put_self]
        exact hw.ready
      · rw [view_put_pairedWorlds w hservice hne]
        exact ⟨hw.ready.noFault, hw.ready.medium⟩
    · obtain ⟨name, other, hname, hother, -⟩ := h.apart t.service s.service hservice
      have hmedium := hw.ready.medium
      rw [hw.table other hother] at hmedium
      rw [view_put_other w hservice]
      refine ⟨hw.ready.noFault, ?_⟩
      simp only [hname]
      exact hmedium
  apart d e hne := by
    rw [h.collection_put hw hne, h.collection_put hw hne.symm]
    exact h.apart d e hne

omit [DecidableEq ι] in
theorem Sound.tick (h : S.Sound) (now : Instant) : (S.tick now).Sound :=
  ⟨fun s => ⟨(h.ready s).noFault, (h.ready s).medium⟩, h.apart⟩

/-! ### Services that agree on some callers -/

structure RestrictsTo (mine : Caller ι → Bool) (locks : ι → List Nat) (S S' : Services ι) :
    Prop where
  sound : S.Sound
  sound' : S'.Sound
  slice : ∀ s, mine s = true → S.slice s = S'.slice s
  flights : ∀ d, (S.service d).flight.RestrictsTo (fun key => mine ⟨d, key⟩ = true) (locks d)
    (S'.service d).flight

namespace RestrictsTo

variable {mine : Caller ι → Bool} {locks : ι → List Nat} {S' : Services ι} {v : World}

omit [DecidableEq ι] in
theorem pairedWorlds (h : S.RestrictsTo mine locks S') (hs : mine s = true) :
    World.PairedWorlds (fun key => mine ⟨s.service, key⟩ = true) (locks s.service) s.key (S.view s)
      (S'.view s) :=
  ⟨h.sound.ready s, h.sound'.ready s, h.slice s hs, h.flights s.service⟩

theorem put (h : S.RestrictsTo mine locks S') (hw : (S.view s).KeepsOthers s.key w)
    (hv : (S'.view s).KeepsOthers s.key v) {locks' : List Nat}
    (hpaired : World.PairedWorlds (fun key => mine ⟨s.service, key⟩ = true) locks' s.key w v) :
    (S.put s w).RestrictsTo mine (Function.update locks s.service locks') (S'.put s v) where
  sound := h.sound.put hw
  sound' := h.sound'.put hv
  slice t ht := by
    by_cases hne : t = s
    · subst hne
      rw [Services.slice, Services.slice, view_put_self, view_put_self]
      exact hpaired.slice
    · rw [h.sound.slice_put hw hne, h.sound'.slice_put hv hne]
      exact h.slice t ht
  flights d := by
    by_cases hservice : d = s.service
    · subst hservice
      rw [service_put_self, service_put_self, Function.update_self]
      exact hpaired.flights
    · rw [service_put_other w hservice, service_put_other v hservice,
        Function.update_of_ne hservice]
      exact h.flights d

theorem put_elsewhere (h : S.RestrictsTo mine locks S') (hs : mine s = false)
    (hw : (S.view s).KeepsOthers s.key w)
    (hflight : w.flight.RestrictsTo (fun key => mine ⟨s.service, key⟩ = true) (locks s.service)
      (S'.service s.service).flight) : (S.put s w).RestrictsTo mine locks S' where
  sound := h.sound.put hw
  sound' := h.sound'
  slice t ht := by
    have hne : t ≠ s := fun he => Bool.noConfusion (ht.symm.trans (he ▸ hs))
    rw [h.sound.slice_put hw hne]
    exact h.slice t ht
  flights d := by
    by_cases hservice : d = s.service
    · subst hservice
      rw [service_put_self]
      exact hflight
    · rw [service_put_other w hservice]
      exact h.flights d

omit [DecidableEq ι] in
theorem tick (h : S.RestrictsTo mine locks S') (now : Instant) :
    (S.tick now).RestrictsTo mine locks (S'.tick now) where
  sound := h.sound.tick now
  sound' := h.sound'.tick now
  slice s hs := by
    obtain ⟨-, hcell, hentry, hendpoint⟩ := World.slice_eq_iff.mp (h.slice s hs)
    exact World.slice_eq_iff.mpr ⟨rfl, hcell, hentry, hendpoint⟩
  flights := h.flights

end RestrictsTo
end Services

/-! ### Tasks of callers -/

/-- Tasks with a caller each, which take turns. -/
structure CallerTasks (ι α : Type) where
  services : Services ι
  caller : Nat → Caller ι
  tasks : List (Task α)

namespace CallerTasks

variable {h h' : CallerTasks ι α} {mine : Caller ι → Bool} {locks : ι → List Nat}

def pool (h : CallerTasks ι α) (s : Caller ι) : TaskPool α := ⟨h.tasks, h.services.view s⟩

def turn (h : CallerTasks ι α) (s : Caller ι) (m : Move) : CallerTasks ι α :=
  let c := (h.pool s).move m
  { h with services := h.services.put s c.world, tasks := c.tasks }

def move (h : CallerTasks ι α) : Move → CallerTasks ι α
  | .run i => h.turn (h.caller i) (.run i)
  | .cancel i => h.turn (h.caller i) (.cancel i)
  | .clock now => { h with services := h.services.tick now }

def event? (h : CallerTasks ι α) : Move → Option Event
  | .run i => (h.pool (h.caller i)).event? (.run i)
  | _ => none

def after (h : CallerTasks ι α) (ms : List Move) : CallerTasks ι α := ms.foldl move h

def trace (h : CallerTasks ι α) : List Move → List (Move × Option Event)
  | [] => []
  | m :: ms => (m, h.event? m) :: (h.move m).trace ms

/-- The moves of some callers, and those of the clock. -/
def isOurs (caller : Nat → Caller ι) (mine : Caller ι → Bool) : Move → Bool
  | .run i => mine (caller i)
  | .cancel i => mine (caller i)
  | .clock _ => true

def ourTrace (h : CallerTasks ι α) (mine : Caller ι → Bool) (ms : List Move) :
    List (Move × Option Event) :=
  (h.trace ms).filter fun turn => isOurs h.caller mine turn.1

def draws (h : CallerTasks ι α) (mine : Caller ι → Bool) (ms : List Move) : List Nonce :=
  (h.ourTrace mine ms).filterMap fun turn => turn.2.bind Event.nonce?

theorem caller_move (h : CallerTasks ι α) (m : Move) : (h.move m).caller = h.caller := by
  cases m <;> rfl

theorem ourTrace_cons (h : CallerTasks ι α) (mine : Caller ι → Bool) (m : Move) (ms : List Move) :
    h.ourTrace mine (m :: ms) =
      if isOurs h.caller mine m then (m, h.event? m) :: (h.move m).ourTrace mine ms
      else (h.move m).ourTrace mine ms := by
  rw [ourTrace, trace, List.filter_cons, ourTrace, caller_move]

theorem draws_cons (h : CallerTasks ι α) (mine : Caller ι → Bool) (m : Move) (ms : List Move) :
    h.draws mine (m :: ms) =
      if isOurs h.caller mine m then
        ((h.event? m).bind Event.nonce?).toList ++ (h.move m).draws mine ms
      else (h.move m).draws mine ms := by
  rw [draws, ourTrace_cons]
  split
  · rw [List.filterMap_cons, draws]
    cases (h.event? m).bind Event.nonce? <;> rfl
  · rfl

/-- The same turn in two runs, but for the locks, which are paired. -/
inductive SameTurn (caller : Nat → Caller ι) (locks : ι → List Nat) :
    Move × Option Event → Move × Option Event → Prop
  | run (i : Nat) {e e' : Option Event}
    (h : Option.Rel (Event.SameSteps (caller i).key (Numbered (locks (caller i).service))) e e') :
    SameTurn caller locks (.run i, e) (.run i, e')
  | cancel (i : Nat) : SameTurn caller locks (.cancel i, none) (.cancel i, none)
  | clock (now : Instant) : SameTurn caller locks (.clock now, none) (.clock now, none)

structure RestrictsTo (mine : Caller ι → Bool) (locks : ι → List Nat) (h h' : CallerTasks ι α) :
    Prop where
  caller : h'.caller = h.caller
  length : h'.tasks.length = h.tasks.length
  services : h.services.RestrictsTo mine locks h'.services
  task : ∀ {i t t'}, h.tasks[i]? = some t → h'.tasks[i]? = some t' → mine (h.caller i) = true →
    t.SameSteps (h.caller i).key (Numbered (locks (h.caller i).service)) t'
  other : ∀ {i t}, h.tasks[i]? = some t → mine (h.caller i) = false →
    t.OwnLocksOnly (h.caller i).key
      ((h.services.service (h.caller i).service).flight.Foreign (locks (h.caller i).service))

omit [DecidableEq ι] in
theorem SameTurn.mono {caller : Nat → Caller ι} {more : ι → List Nat} {x y : Move × Option Event}
    (hxy : SameTurn caller locks x y) (hmore : ∀ d, locks d <+: more d) :
    SameTurn caller more x y := by
  cases hxy with
  | run i he =>
    refine .run i ?_
    cases he with
    | some he => exact .some (he.mono fun _ _ hpair => hpair.mono (hmore _))
    | none => exact .none
  | cancel i => exact .cancel i
  | clock now => exact .clock now

/-- What some callers see in one run they see in the other: how their tasks ended, what is stored
for them, the rest of their scripts, and their locks. -/
structure Agrees (mine : Caller ι → Bool) (locks : ι → List Nat) (h h' : CallerTasks ι α) :
    Prop where
  result : ∀ i, mine (h.caller i) = true →
    (h'.tasks[i]?).bind Task.result? = (h.tasks[i]?).bind Task.result?
  slice : ∀ s, mine s = true → h'.services.slice s = h.services.slice s
  entry : ∀ s, mine s = true → ∀ b : StoreKind,
    b.held? (h'.services.view s) s.key = b.held? (h.services.view s) s.key
  listed : ∀ s, mine s = true → Option.Rel (Numbered (locks s.service))
    (Dict.get? (h.services.service s.service).flight.registry s.key)
    (Dict.get? (h'.services.service s.service).flight.registry s.key)
  lock : ∀ d lock number, Numbered (locks d) lock number →
    number < (h'.services.service d).flight.next →
      (h'.services.service d).flight.sharesOf number = (h.services.service d).flight.sharesOf lock ∧
        (number ∈ (h'.services.service d).flight.held ↔ lock ∈ (h.services.service d).flight.held)

/-- A run, restricted to some callers, is a run of other tasks. -/
structure RunRestrictsTo (mine : Caller ι → Bool) (locks : ι → List Nat) (h h' : CallerTasks ι α)
    (ms : List Move) : Prop where
  rising : ∀ d, (locks d).Pairwise (· < ·)
  turns : List.Forall₂ (SameTurn h.caller locks) (h.ourTrace mine ms)
    (h'.trace (ms.filter (isOurs h.caller mine)))
  throughout : ∀ before, before <+: ms →
    (h.after before).Agrees mine locks (h'.after (before.filter (isOurs h.caller mine)))

namespace RunRestrictsTo

variable {m : Move} {ms : List Move}

theorem cons_ours (hr : (h.move m).RunRestrictsTo mine locks (h'.move m) ms)
    (hm : isOurs h.caller mine m = true)
    (hturn : SameTurn h.caller locks (m, h.event? m) (m, h'.event? m))
    (hstart : h.Agrees mine locks h') : h.RunRestrictsTo mine locks h' (m :: ms) := by
  obtain ⟨hrising, hturns, hthroughout⟩ := hr
  rw [caller_move] at hturns hthroughout
  refine ⟨hrising, ?_, fun before hbefore => ?_⟩
  · rw [ourTrace_cons, if_pos hm, List.filter_cons_of_pos hm]
    exact .cons hturn hturns
  · cases before with
    | nil => exact hstart
    | cons m' before =>
      obtain ⟨he, hms⟩ := List.cons_prefix_cons.mp hbefore
      subst he
      rw [List.filter_cons_of_pos hm]
      exact hthroughout before hms

theorem cons_theirs (hr : (h.move m).RunRestrictsTo mine locks h' ms)
    (hm : isOurs h.caller mine m = false) (hstart : h.Agrees mine locks h') :
    h.RunRestrictsTo mine locks h' (m :: ms) := by
  have hnot : ¬ isOurs h.caller mine m = true := by rw [hm]; decide
  obtain ⟨hrising, hturns, hthroughout⟩ := hr
  rw [caller_move] at hturns hthroughout
  refine ⟨hrising, ?_, fun before hbefore => ?_⟩
  · rw [ourTrace_cons, if_neg hnot, List.filter_cons_of_neg hnot]
    exact hturns
  · cases before with
    | nil => exact hstart
    | cons m' before =>
      obtain ⟨he, hms⟩ := List.cons_prefix_cons.mp hbefore
      subst he
      rw [List.filter_cons_of_neg hnot]
      exact hthroughout before hms

end RunRestrictsTo

theorem turn_eq {s : Caller ι} {m : Move} {tasks : List (Task α)} {w : World}
    (hm : (h.pool s).move m = ⟨tasks, w⟩) :
    h.turn s m = { h with services := h.services.put s w, tasks := tasks } := by
  rw [turn, hm]

theorem grown_update {d : ι} {locks' : List Nat} (h : locks d <+: locks') (e : ι) :
    locks e <+: Function.update locks d locks' e := by
  by_cases he : e = d
  · subst he
    rw [Function.update_self]
    exact h
  · simp only [Function.update_of_ne he, List.prefix_rfl]

namespace RestrictsTo

variable {i : Nat} {m : Move}

theorem movedTogether (hh : h.RestrictsTo mine locks h') (hmine : mine (h.caller i) = true)
    {locks' : List Nat} {t t' : Task α} {w v : World}
    (ht : TaskPool.MovedTogether (fun key => mine ⟨(h.caller i).service, key⟩ = true)
      (locks (h.caller i).service) (h.caller i).key m i (h.pool (h.caller i))
      (h'.pool (h.caller i)) locks' t t' w v) :
    (h.turn (h.caller i) m).RestrictsTo mine (Function.update locks (h.caller i).service locks')
      (h'.turn (h.caller i) m) := by
  rw [turn_eq ht.move, turn_eq ht.move']
  constructor
  case caller => exact hh.caller
  case length =>
    simp only [pool, List.length_set]
    exact hh.length
  case services => exact hh.services.put ht.keepsOthers ht.keepsOthers' ht.worlds
  case task =>
    intro j u u' hu hu' hj
    rcases getElem?_set_cases hu with ⟨rfl, rfl⟩ | ⟨hne, hu⟩
    · rcases getElem?_set_cases hu' with ⟨-, rfl⟩ | ⟨hne, -⟩
      · simp only [Function.update_self]
        exact ht.task
      · exact absurd rfl hne
    · rcases getElem?_set_cases hu' with ⟨he, -⟩ | ⟨-, hu'⟩
      · exact absurd he hne
      · exact (hh.task hu hu' hj).mono fun _ _ hs => hs.mono (grown_update ht.grown _)
  case other =>
    intro j u hu hj
    rcases getElem?_set_cases hu with ⟨rfl, -⟩ | ⟨-, hu⟩
    · exact absurd (hmine.symm.trans hj) (by decide)
    · refine (hh.other hu hj).mono fun lock hlock => ?_
      by_cases hservice : (h.caller j).service = (h.caller i).service
      · simp only [hservice, Services.service_put_self, Function.update_self] at hlock ⊢
        exact ht.foreign lock hlock
      · simp only [Services.service_put_other w hservice, Function.update_of_ne hservice]
        exact hlock

theorem elsewhere (hh : h.RestrictsTo mine locks h') (hmine : mine (h.caller i) = false)
    {t : Task α} {w : World}
    (ht : TaskPool.MovedApart (fun key => mine ⟨(h.caller i).service, key⟩ = true)
      (locks (h.caller i).service) (h.caller i).key m i (h.pool (h.caller i))
      (h'.services.service (h.caller i).service).flight t w) :
    (h.turn (h.caller i) m).RestrictsTo mine locks h' := by
  rw [turn_eq ht.move]
  constructor
  case caller => exact hh.caller
  case length =>
    simp only [pool, List.length_set]
    exact hh.length
  case services => exact hh.services.put_elsewhere hmine ht.keepsOthers ht.flights
  case task =>
    intro j u u' hu hu' hj
    rcases getElem?_set_cases hu with ⟨rfl, -⟩ | ⟨-, hu⟩
    · exact absurd (hmine.symm.trans hj) (by decide)
    · exact hh.task hu hu' hj
  case other =>
    intro j u hu hj
    rcases getElem?_set_cases hu with ⟨rfl, rfl⟩ | ⟨-, hu⟩
    · simp only [Services.service_put_self]
      exact ht.task
    · refine (hh.other hu hj).mono fun lock hlock => ?_
      by_cases hservice : (h.caller j).service = (h.caller i).service
      · simp only [hservice, Services.service_put_self] at hlock ⊢
        exact ht.foreign lock hlock
      · simp only [Services.service_put_other w hservice]
        exact hlock

omit [DecidableEq ι] in
theorem exists_task (hh : h.RestrictsTo mine locks h') {t : Task α} (hc : h.tasks[i]? = some t) :
    ∃ t', h'.tasks[i]? = some t' := by
  have hlength : i < h'.tasks.length := hh.length ▸ (List.getElem?_eq_some_iff.mp hc).1
  exact ⟨_, List.getElem?_eq_getElem hlength⟩

omit [DecidableEq ι] in
theorem no_task (hh : h.RestrictsTo mine locks h') (hc : h.tasks[i]? = none) :
    h'.tasks[i]? = none := by
  rw [List.getElem?_eq_none_iff, hh.length]
  exact List.getElem?_eq_none_iff.mp hc

omit [DecidableEq ι] in
theorem exists_movedTogether (hh : h.RestrictsTo mine locks h') (hmine : mine (h.caller i) = true)
    (hm : m = .run i ∨ m = .cancel i)
    (hnonce : ∀ n ∈ ((h.pool (h.caller i)).event? m).bind Event.nonce?,
      h'.services.world.nonces h'.services.world.drawn = n) :
    ∃ locks' t t' w v, TaskPool.MovedTogether (fun key => mine ⟨(h.caller i).service, key⟩ = true)
      (locks (h.caller i).service) (h.caller i).key m i (h.pool (h.caller i))
        (h'.pool (h.caller i)) locks' t t' w v := by
  have hpaired := hh.services.pairedWorlds hmine
  cases hc : h.tasks[i]? with
  | none => exact ⟨_, _, _, _, _, .absent hpaired hm hc (hh.no_task hc)⟩
  | some t =>
    obtain ⟨t', hc'⟩ := hh.exists_task hc
    have htask := hh.task hc hc' hmine
    rcases hm with rfl | rfl
    · exact TaskPool.MovedTogether.run hpaired hmine hc hc' htask hnonce
    · exact ⟨_, _, _, _, _, .cancel hpaired hc hc' htask⟩

omit [DecidableEq ι] in
theorem exists_elsewhere (hh : h.RestrictsTo mine locks h') (hmine : mine (h.caller i) = false)
    (hm : m = .run i ∨ m = .cancel i) :
    ∃ t w, TaskPool.MovedApart (fun key => mine ⟨(h.caller i).service, key⟩ = true)
      (locks (h.caller i).service) (h.caller i).key m i (h.pool (h.caller i))
      (h'.services.service (h.caller i).service).flight t w := by
  have hready : (h.pool (h.caller i)).world.Ready := hh.services.sound.ready (h.caller i)
  have hflights : (h.pool (h.caller i)).world.flight.RestrictsTo _ _ _ :=
    hh.services.flights (h.caller i).service
  have hkey : ¬ mine (h.caller i) = true := by rw [hmine]; decide
  cases hc : h.tasks[i]? with
  | none => exact ⟨_, _, .absent hready hflights hm hc⟩
  | some t =>
    have htask := hh.other hc hmine
    rcases hm with rfl | rfl
    · exact TaskPool.MovedApart.run hready hflights hkey hc htask
    · exact ⟨_, _, .cancel hready hflights hc htask⟩

theorem turn_ours (hh : h.RestrictsTo mine locks h') (hmine : mine (h.caller i) = true)
    (hm : m = .run i ∨ m = .cancel i) {rest : List Nonce}
    (hsupply : h'.services.Supplies
      ((((h.pool (h.caller i)).event? m).bind Event.nonce?).toList ++ rest)) :
    ∃ locks', (∀ d, locks d <+: locks' d) ∧
      (h.turn (h.caller i) m).RestrictsTo mine locks' (h'.turn (h.caller i) m) ∧
      Option.Rel (Event.SameSteps (h.caller i).key (Numbered (locks' (h.caller i).service)))
        ((h.pool (h.caller i)).event? m) ((h'.pool (h.caller i)).event? m) ∧
      (h'.turn (h.caller i) m).services.Supplies rest := by
  obtain ⟨locks', t, t', w, v, ht⟩ := hh.exists_movedTogether hmine hm hsupply.head
  refine ⟨_, grown_update ht.grown, hh.movedTogether hmine ht, ?_, ?_⟩
  · rw [Function.update_self]
    exact ht.event
  · rw [turn_eq ht.move']
    exact hsupply.tail ht.keepsOthers'.nonces ht.drawn

theorem move_ours (hh : h.RestrictsTo mine locks h') (hm : isOurs h.caller mine m = true)
    {rest : List Nonce}
    (hsupply : h'.services.Supplies (((h.event? m).bind Event.nonce?).toList ++ rest)) :
    ∃ locks', (∀ d, locks d <+: locks' d) ∧ (h.move m).RestrictsTo mine locks' (h'.move m) ∧
      SameTurn h.caller locks' (m, h.event? m) (m, h'.event? m) ∧
      (h'.move m).services.Supplies rest := by
  cases m with
  | run i =>
    obtain ⟨locks', hgrown, hrestricts, hevent, hrest⟩ := hh.turn_ours hm (.inl rfl) hsupply
    have hmove : h'.move (.run i) = h'.turn (h.caller i) (.run i) := by rw [move, hh.caller]
    have hevent' : h'.event? (.run i) = (h'.pool (h.caller i)).event? (.run i) := by
      rw [event?, hh.caller]
    rw [hmove, hevent']
    exact ⟨locks', hgrown, hrestricts, .run i hevent, hrest⟩
  | cancel i =>
    obtain ⟨locks', hgrown, hrestricts, -, hrest⟩ := hh.turn_ours hm (.inr rfl) hsupply
    have hmove : h'.move (.cancel i) = h'.turn (h.caller i) (.cancel i) := by rw [move, hh.caller]
    rw [hmove]
    exact ⟨locks', hgrown, hrestricts, .cancel i, hrest⟩
  | clock now =>
    exact ⟨locks, fun d => List.prefix_rfl,
      ⟨hh.caller, hh.length, hh.services.tick now, hh.task, hh.other⟩, .clock now, hsupply⟩

theorem move_theirs (hh : h.RestrictsTo mine locks h') (hm : isOurs h.caller mine m = false) :
    (h.move m).RestrictsTo mine locks h' := by
  cases m with
  | run i =>
    obtain ⟨t, w, ht⟩ := hh.exists_elsewhere hm (.inl rfl)
    exact hh.elsewhere hm ht
  | cancel i =>
    obtain ⟨t, w, ht⟩ := hh.exists_elsewhere hm (.inr rfl)
    exact hh.elsewhere hm ht
  | clock now => cases hm

omit [DecidableEq ι] in
theorem agrees (hh : h.RestrictsTo mine locks h') {more : ι → List Nat}
    (hmore : ∀ d, locks d <+: more d) : h.Agrees mine more h' where
  result i hmine := by
    cases hc : h.tasks[i]? with
    | none => rw [hh.no_task hc]
    | some t =>
      obtain ⟨t', hc'⟩ := hh.exists_task hc
      rw [hc']
      exact (hh.task hc hc' hmine).result?
  slice s hs := (hh.services.slice s hs).symm
  entry s hs b := World.held?_of_slice (hh.services.sound'.ready s) (hh.services.sound.ready s)
    (hh.services.slice s hs).symm b
  listed s hs := Numbered.rel_mono ((hh.services.flights s.service).listed s.key hs)
    (hmore s.service)
  lock d lock number hpair hlt := by
    have hflights := hh.services.flights d
    have hpair' : Numbered (locks d) lock number := hpair.of_prefix (hmore d) (by
      rw [hflights.numbered]
      exact hlt)
    have hcount := hflights.counts lock number hpair'
    refine ⟨(hflights.shares lock number hpair').symm, ?_⟩
    rw [← List.count_pos_iff, ← List.count_pos_iff, hcount]

/-- What happens to some callers happens to them as well without the others, as long as the same
nonces are drawn. -/
theorem after (hh : h.RestrictsTo mine locks h') (ms : List Move)
    (hsupply : h'.services.Supplies (h.draws mine ms)) :
    ∃ locks', (∀ d, locks d <+: locks' d) ∧ h.RunRestrictsTo mine locks' h' ms := by
  induction ms generalizing h h' locks with
  | nil =>
    refine ⟨locks, fun d => List.prefix_rfl, fun d => (hh.services.flights d).rising, .nil, ?_⟩
    intro before hbefore
    cases List.prefix_nil.mp hbefore
    exact hh.agrees fun d => List.prefix_rfl
  | cons m ms ih =>
    rw [draws_cons] at hsupply
    cases hm : isOurs h.caller mine m with
    | true =>
      rw [hm, if_pos rfl] at hsupply
      obtain ⟨locks₁, hgrown, hmoved, hturn, hrest⟩ := hh.move_ours hm hsupply
      obtain ⟨locks', hgrown', hrun⟩ := ih hmoved hrest
      -- Pairs of locks are only ever added, so this turn may be told by the pairs of the whole run.
      have hmore := fun d => (hgrown d).trans (hgrown' d)
      exact ⟨locks', hmore, hrun.cons_ours hm (hturn.mono hgrown') (hh.agrees hmore)⟩
    | false =>
      rw [hm, if_neg Bool.false_ne_true] at hsupply
      obtain ⟨locks', hgrown, hrun⟩ := ih (hh.move_theirs hm) hsupply
      exact ⟨locks', hgrown, hrun.cons_theirs hm (hh.agrees hgrown)⟩

end RestrictsTo

end CallerTasks
end TokenKeeper
