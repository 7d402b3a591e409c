import TokenKeeper.Proofs.Flight

/-!
# Locks of some keys among those of others

A registry that serves some keys alone makes the same locks for them as one that serves others
besides, only that it numbers them without gaps. `RestrictsTo` says so: the locks of the one are paired
with those locks of the other that belong to the keys, in the order in which they were made. Steps
for the keys, taken with paired locks, keep it, and so do steps for other keys with other locks.
-/
namespace TokenKeeper

inductive LockOp
  | acquire | release | retire | forget

namespace LockOp

def op : LockOp → Slot → Op
  | .acquire, s => .acquire s
  | .release, s => .release s
  | .retire, s => .retire s
  | .forget, s => .forget s

def act : LockOp → Slot → Flight → Flight
  | .acquire, s, f => f.acquire s
  | .release, s, f => f.release s
  | .retire, s, f => f.retire s
  | .forget, s, f => f.forget s

variable (k : LockOp) (s : Slot) (f : Flight)

/-! ### What a step changes -/

theorem next_act : (k.act s f).next = f.next := by
  cases k with
  | retire =>
    simp only [act, Flight.retire]
    split <;> rfl
  | _ => rfl

theorem sharesOf_act_other {lock : Nat} (h : lock ≠ s.lock) :
    (k.act s f).sharesOf lock = f.sharesOf lock := by
  cases k with
  | retire =>
    simp only [act, Flight.retire]
    split
    · rw [Flight.sharesOf_setShares, if_neg h.symm]
      rfl
    · rfl
  | forget => exact (Flight.sharesOf_setShares f s.lock _ lock).trans (if_neg h.symm)
  | _ => rfl

theorem count_act_other {lock : Nat} (h : lock ≠ s.lock) :
    (k.act s f).held.count lock = f.held.count lock := by
  cases k with
  | acquire => exact List.count_cons_of_ne h.symm
  | release => exact List.count_erase_of_ne h
  | retire =>
    simp only [act, Flight.retire]
    split <;> rfl
  | forget => rfl

theorem listed_act_other {key : String} (h : key ≠ s.key) :
    Dict.get? (k.act s f).registry key = Dict.get? f.registry key := by
  cases k with
  | retire =>
    simp only [act, Flight.retire]
    split
    · exact (Dict.get?_erase f.registry s.key key).trans (if_neg h.symm)
    · rfl
  | _ => rfl

theorem held_act {lock : Nat} (h : lock ∈ (k.act s f).held) : lock = s.lock ∨ lock ∈ f.held := by
  cases k with
  | acquire => exact List.mem_cons.mp h
  | release => exact Or.inr (List.mem_of_mem_erase h)
  | retire =>
    simp only [act, Flight.retire] at h
    split at h <;> exact Or.inr h
  | forget => exact Or.inr h

theorem act_congr {key : String} {lock number : Nat} {f' : Flight}
    (hshares : f.sharesOf lock = f'.sharesOf number)
    (hcount : f.held.count lock = f'.held.count number)
    (hlisted : Dict.get? f.registry key = some lock ↔ Dict.get? f'.registry key = some number) :
    (k.act ⟨key, lock⟩ f).sharesOf lock = (k.act ⟨key, number⟩ f').sharesOf number ∧
      (k.act ⟨key, lock⟩ f).held.count lock = (k.act ⟨key, number⟩ f').held.count number := by
  cases k with
  | acquire =>
    refine ⟨hshares, ?_⟩
    simp only [act, Flight.acquire, List.count_cons_self, hcount]
  | release =>
    refine ⟨hshares, ?_⟩
    simp only [act, Flight.release, List.count_erase_self, hcount]
  | retire =>
    simp only [act, Flight.retire, hshares, hlisted]
    split
    · refine ⟨?_, hcount⟩
      rw [Flight.sharesOf_setShares, Flight.sharesOf_setShares, if_pos rfl, if_pos rfl]
    · exact ⟨hshares, hcount⟩
  | forget =>
    refine ⟨?_, hcount⟩
    simp only [act, Flight.forget, Flight.sharesOf_setShares, if_true, hshares]

theorem listed_act_congr {key : String} {lock number : Nat} {f' : Flight}
    (hshares : f.sharesOf lock = f'.sharesOf number)
    (hlisted : Dict.get? f.registry key = some lock ↔ Dict.get? f'.registry key = some number) :
    (Dict.get? (k.act ⟨key, lock⟩ f).registry key = Dict.get? f.registry key ∧
        Dict.get? (k.act ⟨key, number⟩ f').registry key = Dict.get? f'.registry key) ∨
      (Dict.get? (k.act ⟨key, lock⟩ f).registry key = none ∧
        Dict.get? (k.act ⟨key, number⟩ f').registry key = none) := by
  cases k with
  | retire =>
    simp only [act, Flight.retire, hshares, hlisted]
    split
    · right
      exact ⟨(Dict.get?_erase _ _ _).trans (if_pos rfl), (Dict.get?_erase _ _ _).trans (if_pos rfl)⟩
    · exact Or.inl ⟨rfl, rfl⟩
  | _ => exact Or.inl ⟨rfl, rfl⟩

theorem listed_act {key : String} {lock : Nat}
    (h : Dict.get? (k.act s f).registry key = some lock) :
    Dict.get? f.registry key = some lock := by
  cases k with
  | retire =>
    simp only [act, Flight.retire] at h
    split at h
    · have herase := (Dict.get?_erase f.registry s.key key).symm.trans h
      split at herase
      · cases herase
      · exact herase
    · exact h
  | _ => exact h

end LockOp

def Numbered (locks : List Nat) (lock number : Nat) : Prop := locks[number]? = some lock

namespace Numbered

variable {locks more : List Nat} {lock number : Nat}

theorem mono (h : Numbered locks lock number) (hmore : locks <+: more) :
    Numbered more lock number := by
  obtain ⟨rest, rfl⟩ := hmore
  exact (List.getElem?_append_left (List.getElem?_eq_some_iff.mp h).1).trans h

theorem of_prefix (h : Numbered more lock number) (hmore : locks <+: more)
    (hlt : number < locks.length) : Numbered locks lock number := by
  obtain ⟨rest, rfl⟩ := hmore
  exact (List.getElem?_append_left hlt).symm.trans h

theorem rel_mono {listed listed' : Option Nat} (h : Option.Rel (Numbered locks) listed listed')
    (hmore : locks <+: more) : Option.Rel (Numbered more) listed listed' := by
  cases h with
  | some hs => exact .some (hs.mono hmore)
  | none => exact .none

theorem mem (h : Numbered locks lock number) : lock ∈ locks := List.mem_of_getElem? h

theorem lt (h : Numbered locks lock number) : number < locks.length :=
  (List.getElem?_eq_some_iff.mp h).1

theorem same_iff (hrising : locks.Pairwise (· < ·)) (h : Numbered locks lock number)
    {lock' number' : Nat} (h' : Numbered locks lock' number') :
    lock' = lock ↔ number' = number := by
  have hnodup : locks.Nodup := hrising.imp Nat.ne_of_lt
  rw [← List.getElem?_inj h'.lt hnodup, show locks[number']? = some lock' from h',
    show locks[number]? = some lock from h, Option.some_inj]

theorem same_or_apart (hrising : locks.Pairwise (· < ·)) (h : Numbered locks lock number)
    {lock' number' : Nat} (h' : Numbered locks lock' number') :
    (lock' = lock ∧ number' = number) ∨ (lock' ≠ lock ∧ number' ≠ number) := by
  have hiff := h.same_iff hrising h'
  by_cases hsame : lock' = lock
  · exact Or.inl ⟨hsame, hiff.mp hsame⟩
  · exact Or.inr ⟨hsame, fun he => hsame (hiff.mpr he)⟩

theorem last (locks : List Nat) (lock : Nat) : Numbered (locks ++ [lock]) lock locks.length :=
  List.getElem?_concat_length

theorem of_concat {last : Nat} (h : Numbered (locks ++ [last]) lock number) :
    Numbered locks lock number ∨ (lock = last ∧ number = locks.length) := by
  rcases Nat.lt_or_ge number locks.length with hlt | hge
  · exact Or.inl ((List.getElem?_append_left hlt).symm.trans h)
  · have hnumber : number = locks.length := by
      have hlt := h.lt
      rw [List.length_append, List.length_singleton] at hlt
      omega
    subst hnumber
    exact Or.inr ⟨Option.some.inj (h.symm.trans (Numbered.last locks last)), rfl⟩

end Numbered

namespace Flight

variable {mine : String → Prop} {locks : List Nat} {f f' : Flight}

def Foreign (f : Flight) (locks : List Nat) (lock : Nat) : Prop := lock < f.next ∧ lock ∉ locks

/-- The second registry serves some keys alone, and the first one others besides. -/
structure RestrictsTo (mine : String → Prop) (locks : List Nat) (f f' : Flight) : Prop where
  numbered : locks.length = f'.next
  rising : locks.Pairwise (· < ·)
  made : ∀ lock ∈ locks, lock < f.next
  listed : ∀ key, mine key →
    Option.Rel (Numbered locks) (Dict.get? f.registry key) (Dict.get? f'.registry key)
  apart : ∀ key lock, ¬ mine key → Dict.get? f.registry key = some lock → f.Foreign locks lock
  held : ∀ lock ∈ f.held, lock < f.next
  held' : ∀ lock ∈ f'.held, lock < f'.next
  shares : ∀ lock number, Numbered locks lock number → f.sharesOf lock = f'.sharesOf number
  counts : ∀ lock number, Numbered locks lock number → f.held.count lock = f'.held.count number

def make (f : Flight) (key : String) : Flight :=
  { f with registry := Dict.insert f.registry key f.next, next := f.next + 1 }.setShares f.next 2

theorem get?_make (f : Flight) (key other : String) : Dict.get? (f.make key).registry other =
    if key = other then some f.next else Dict.get? f.registry other :=
  Dict.get?_insert f.registry key f.next other

theorem sharesOf_make (f : Flight) (key : String) (lock : Nat) :
    (f.make key).sharesOf lock = if f.next = lock then 2 else f.sharesOf lock :=
  sharesOf_setShares _ f.next 2 lock

theorem Foreign.make {lock : Nat} (h : f.Foreign locks lock) (key : String) :
    (f.make key).Foreign (locks ++ [f.next]) lock := by
  refine ⟨Nat.lt_succ_of_lt h.1, fun hmem => ?_⟩
  rcases List.mem_append.mp hmem with hmem | hmem
  · exact h.2 hmem
  · exact Nat.ne_of_lt h.1 (List.mem_singleton.mp hmem)

namespace RestrictsTo

variable {key : String} {lock number : Nat}

theorem listed_iff (h : f.RestrictsTo mine locks f') (hkey : mine key)
    (hpair : Numbered locks lock number) :
    Dict.get? f.registry key = some lock ↔ Dict.get? f'.registry key = some number := by
  have hlisted := h.listed key hkey
  generalize Dict.get? f.registry key = listed at hlisted
  generalize Dict.get? f'.registry key = listed' at hlisted
  cases hlisted with
  | some hlisted => rw [Option.some_inj, Option.some_inj, hpair.same_iff h.rising hlisted]
  | none => exact ⟨(nomatch ·), (nomatch ·)⟩

theorem isFree (h : f.RestrictsTo mine locks f') (hpair : Numbered locks lock number) :
    f.isFree ⟨key, lock⟩ = f'.isFree ⟨key, number⟩ := by
  have hcount := h.counts lock number hpair
  have hheld : lock ∈ f.held ↔ number ∈ f'.held := by
    rw [← List.count_pos_iff, ← List.count_pos_iff, hcount]
  rw [Flight.isFree, Flight.isFree, List.contains_eq_mem, List.contains_eq_mem]
  exact congrArg Bool.not (decide_eq_decide.mpr hheld)

theorem act (h : f.RestrictsTo mine locks f') (hkey : mine key) (hpair : Numbered locks lock number)
    (k : LockOp) :
    (k.act ⟨key, lock⟩ f).RestrictsTo mine locks (k.act ⟨key, number⟩ f') := by
  have hlisted := h.listed_iff hkey hpair
  have hshares := h.shares lock number hpair
  obtain ⟨hshares', hcounts'⟩ := k.act_congr f hshares (h.counts lock number hpair) hlisted
  constructor
  case numbered =>
    rw [k.next_act]
    exact h.numbered
  case rising => exact h.rising
  case made =>
    rw [k.next_act]
    exact h.made
  case listed =>
    intro key' hkey'
    by_cases hsame : key' = key
    · subst hsame
      rcases k.listed_act_congr f hshares hlisted with ⟨hstay, hstay'⟩ | ⟨hgone, hgone'⟩
      · rw [hstay, hstay']
        exact h.listed key' hkey'
      · rw [hgone, hgone']
        exact .none
    · rw [k.listed_act_other _ _ hsame, k.listed_act_other _ _ hsame]
      exact h.listed key' hkey'
  case apart =>
    intro key' lock' hkey' hl
    rw [Foreign, k.next_act]
    exact h.apart key' lock' hkey' (k.listed_act _ _ hl)
  case held =>
    intro lock' hl
    rw [k.next_act]
    rcases k.held_act _ _ hl with rfl | hl
    · exact h.made _ hpair.mem
    · exact h.held lock' hl
  case held' =>
    intro number' hl
    rw [k.next_act]
    rcases k.held_act _ _ hl with rfl | hl
    · exact h.numbered ▸ hpair.lt
    · exact h.held' number' hl
  case shares =>
    intro lock' number' hs
    rcases hpair.same_or_apart h.rising hs with ⟨rfl, rfl⟩ | ⟨hlock, hnumber⟩
    · exact hshares'
    · rw [k.sharesOf_act_other _ _ hlock, k.sharesOf_act_other _ _ hnumber]
      exact h.shares lock' number' hs
  case counts =>
    intro lock' number' hs
    rcases hpair.same_or_apart h.rising hs with ⟨rfl, rfl⟩ | ⟨hlock, hnumber⟩
    · exact hcounts'
    · rw [k.count_act_other _ _ hlock, k.count_act_other _ _ hnumber]
      exact h.counts lock' number' hs

theorem act_apart (h : f.RestrictsTo mine locks f') (hkey : ¬ mine key)
    (hlock : f.Foreign locks lock) (k : LockOp) :
    (k.act ⟨key, lock⟩ f).RestrictsTo mine locks f' := by
  have hother : ∀ {lock' number'}, Numbered locks lock' number' → lock' ≠ lock :=
    fun hs he => hlock.2 (he ▸ hs.mem)
  constructor
  case numbered => exact h.numbered
  case rising => exact h.rising
  case made =>
    rw [k.next_act]
    exact h.made
  case listed =>
    intro key' hkey'
    have hne : key' ≠ key := fun he => hkey (he ▸ hkey')
    rw [k.listed_act_other ⟨key, lock⟩ f hne]
    exact h.listed key' hkey'
  case apart =>
    intro key' lock' hkey' hl
    rw [Foreign, k.next_act]
    exact h.apart key' lock' hkey' (k.listed_act _ _ hl)
  case held =>
    intro lock' hl
    rw [k.next_act]
    rcases k.held_act _ _ hl with rfl | hl
    · exact hlock.1
    · exact h.held lock' hl
  case held' => exact h.held'
  case shares =>
    intro lock' number' hs
    rw [k.sharesOf_act_other _ _ (hother hs)]
    exact h.shares lock' number' hs
  case counts =>
    intro lock' number' hs
    rw [k.count_act_other _ _ (hother hs)]
    exact h.counts lock' number' hs

theorem share (h : f.RestrictsTo mine locks f') (hpair : Numbered locks lock number) :
    (f.setShares lock (f.sharesOf lock + 1)).RestrictsTo mine locks
      (f'.setShares number (f'.sharesOf number + 1)) := by
  refine ⟨h.numbered, h.rising, h.made, h.listed, h.apart, h.held, h.held',
    fun lock' number' hs => ?_, h.counts⟩
  rw [sharesOf_setShares, sharesOf_setShares, h.shares lock number hpair,
    h.shares lock' number' hs]
  rcases hpair.same_or_apart h.rising hs with ⟨rfl, rfl⟩ | ⟨hlock, hnumber⟩
  · rw [if_pos rfl, if_pos rfl]
  · rw [if_neg hlock.symm, if_neg hnumber.symm]

theorem make_paired (h : f.RestrictsTo mine locks f') (hkey : mine key) :
    (f.make key).RestrictsTo mine (locks ++ [f.next]) (f'.make key) := by
  have hprefix : locks <+: locks ++ [f.next] := List.prefix_append _ _
  have hlast : Numbered (locks ++ [f.next]) f.next f'.next :=
    h.numbered ▸ Numbered.last locks f.next
  constructor
  case numbered =>
    rw [List.length_append, List.length_singleton, h.numbered]
    rfl
  case rising =>
    refine List.pairwise_append.mpr ⟨h.rising, List.pairwise_singleton _ _, fun lock hl _ hm => ?_⟩
    rw [List.mem_singleton.mp hm]
    exact h.made lock hl
  case made =>
    intro lock hl
    rcases List.mem_append.mp hl with hl | hl
    · exact Nat.lt_succ_of_lt (h.made lock hl)
    · rw [List.mem_singleton.mp hl]
      exact Nat.lt_succ_self _
  case listed =>
    intro key' hkey'
    rw [get?_make, get?_make]
    split
    · exact .some hlast
    · exact Numbered.rel_mono (h.listed key' hkey') hprefix
  case apart =>
    intro key' lock' hkey' hl
    have hne : key ≠ key' := fun he => hkey' (he ▸ hkey)
    rw [get?_make, if_neg hne] at hl
    exact (h.apart key' lock' hkey' hl).make key
  case held => exact fun lock hl => Nat.lt_succ_of_lt (h.held lock hl)
  case held' => exact fun number hl => Nat.lt_succ_of_lt (h.held' number hl)
  case shares =>
    intro lock number hs
    rw [sharesOf_make, sharesOf_make]
    rcases hs.of_concat with hs | ⟨rfl, hnumber⟩
    · rw [if_neg (Nat.ne_of_lt (h.made _ hs.mem)).symm,
        if_neg (Nat.ne_of_lt (h.numbered ▸ hs.lt)).symm]
      exact h.shares lock number hs
    · rw [if_pos rfl, if_pos (h.numbered.symm.trans hnumber.symm)]
  case counts =>
    intro lock number hs
    rcases hs.of_concat with hs | ⟨rfl, hnumber⟩
    · exact h.counts lock number hs
    · -- nobody holds a lock that has just been made
      have hnew : f.next ∉ f.held := fun hm => Nat.lt_irrefl _ (h.held _ hm)
      have hnew' : number ∉ f'.held := fun hm =>
        Nat.ne_of_lt (h.held' _ hm) (hnumber.trans h.numbered)
      exact (List.count_eq_zero.mpr hnew).trans (List.count_eq_zero.mpr hnew').symm

theorem make_apart (h : f.RestrictsTo mine locks f') (hkey : ¬ mine key) :
    (f.make key).RestrictsTo mine locks f' := by
  have hnew : f.next ∉ locks := fun hm => Nat.lt_irrefl _ (h.made _ hm)
  constructor
  case numbered => exact h.numbered
  case rising => exact h.rising
  case made => exact fun lock hl => Nat.lt_succ_of_lt (h.made lock hl)
  case listed =>
    intro key' hkey'
    have hne : key ≠ key' := fun he => hkey (he ▸ hkey')
    rw [get?_make, if_neg hne]
    exact h.listed key' hkey'
  case apart =>
    intro key' lock' hkey' hl
    rw [get?_make] at hl
    split at hl
    · cases hl
      exact ⟨Nat.lt_succ_self _, hnew⟩
    · obtain ⟨hlt, hnot⟩ := h.apart key' lock' hkey' hl
      exact ⟨Nat.lt_succ_of_lt hlt, hnot⟩
  case held => exact fun lock hl => Nat.lt_succ_of_lt (h.held lock hl)
  case held' => exact h.held'
  case shares =>
    intro lock number hs
    have hne : f.next ≠ lock := fun he => hnew (he ▸ hs.mem)
    rw [sharesOf_make, if_neg hne]
    exact h.shares lock number hs
  case counts => exact h.counts

theorem checkout (h : f.RestrictsTo mine locks f') (hkey : mine key) :
    ∃ locks' lock number, locks <+: locks' ∧ Numbered locks' lock number ∧
      (f.checkout key).1 = ⟨key, lock⟩ ∧ (f'.checkout key).1 = ⟨key, number⟩ ∧
      (∀ other, f.Foreign locks other → (f.checkout key).2.Foreign locks' other) ∧
      (f.checkout key).2.RestrictsTo mine locks' (f'.checkout key).2 := by
  have hlisted := h.listed key hkey
  unfold Flight.checkout
  generalize Dict.get? f.registry key = listed at hlisted
  generalize Dict.get? f'.registry key = listed' at hlisted
  cases hlisted with
  | @some lock number hpair =>
    exact ⟨locks, lock, number, List.prefix_rfl, hpair, rfl, rfl, fun _ ho => ho,
      h.share hpair⟩
  | none =>
    exact ⟨_, f.next, f'.next, List.prefix_append _ _, h.numbered ▸ Numbered.last locks f.next, rfl,
      rfl, fun _ ho => ho.make key, h.make_paired hkey⟩

theorem checkout_apart (h : f.RestrictsTo mine locks f') (hkey : ¬ mine key) :
    ∃ lock, (f.checkout key).1 = ⟨key, lock⟩ ∧ (f.checkout key).2.Foreign locks lock ∧
      f.next ≤ (f.checkout key).2.next ∧ (f.checkout key).2.RestrictsTo mine locks f' := by
  unfold Flight.checkout
  cases hget : Dict.get? f.registry key with
  | some lock =>
    have hforeign := h.apart key lock hkey hget
    refine ⟨lock, rfl, hforeign, Nat.le_refl _, h.numbered, h.rising, h.made, h.listed, h.apart,
      h.held, h.held', fun lock' number' hs => ?_, h.counts⟩
    have hne : lock ≠ lock' := fun he => hforeign.2 (he ▸ hs.mem)
    rw [sharesOf_setShares, if_neg hne]
    exact h.shares lock' number' hs
  | none =>
    have hnew : f.next ∉ locks := fun hm => Nat.lt_irrefl _ (h.made _ hm)
    exact ⟨f.next, rfl, ⟨Nat.lt_succ_self _, hnew⟩, Nat.le_succ _, h.make_apart hkey⟩

theorem start (mine : String → Prop) : Flight.empty.RestrictsTo mine [] .empty where
  numbered := rfl
  rising := .nil
  made _ hl := nomatch hl
  listed _ _ := .none
  apart _ _ _ hl := nomatch hl
  held _ hl := nomatch hl
  held' _ hl := nomatch hl
  shares _ _ hs := nomatch hs
  counts _ _ hs := nomatch hs

end RestrictsTo

end Flight

end TokenKeeper
