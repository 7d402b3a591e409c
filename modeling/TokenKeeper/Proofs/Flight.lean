import TokenKeeper.Proofs.Events

/-!
# One lock for each key

Locks come and go with the slots that share them, so that exclusion needs more than a lock that is
held once. The invariant: a slot that is not retired shares the very lock that the registry lists
under its key. A lock leaves the registry only when nobody but its last slot shares it, and for that
the counted shares must not fall below the slots that there are.
-/
namespace TokenKeeper

/-- What a task may owe for a slot: nothing, or all from some point of the way out on. -/
inductive Slot.Owes (s : Slot) : List Op → Prop
  | nothing : Owes s []
  | share : Owes s [.forget s]
  | slot : Owes s [.retire s, .forget s]
  | lock : Owes s [.release s, .retire s, .forget s]

def holdsShare (lock : Nat) (owed : List Op) : Bool :=
  owed.any fun
    | .forget s => s.lock == lock
    | _ => false

theorem holdsShare_release (s : Slot) (lock : Nat) :
    holdsShare lock [.release s, .retire s, .forget s] = holdsShare lock [.retire s, .forget s] :=
  rfl

theorem Slot.Owes.retire_of_release {s : Slot} {owed : List Op} (h : s.Owes owed) {s' : Slot}
    (hs : .release s' ∈ owed) : s' = s ∧ .retire s' ∈ owed := by
  cases h with
  | nothing => cases hs
  | share => simp at hs
  | slot => simp at hs
  | lock => simp_all

theorem Slot.Owes.share_of_retire {s : Slot} {owed : List Op} (h : s.Owes owed) {s' : Slot}
    (hs : .retire s' ∈ owed) : s' = s ∧ holdsShare s'.lock owed = true := by
  cases h with
  | nothing => cases hs
  | share => simp at hs
  | slot => simp_all [holdsShare]
  | lock => simp_all [holdsShare]

/-! ### Counted shares -/

namespace Flight

theorem sharesOf_setShares (f : Flight) (lock n other : Nat) :
    (f.setShares lock n).sharesOf other = if lock = other then n else f.sharesOf other := by
  have hothers : (f.shares.filter (·.1 != lock)).find? (·.1 == other) =
      if lock = other then none else f.shares.find? (·.1 == other) := by
    induction f.shares with
    | nil => simp
    | cons e rest ih =>
      by_cases hlock : e.1 = lock
      · rw [List.filter_cons_of_neg (by simp [hlock]), ih]
        split
        · rfl
        · next hne => rw [List.find?_cons_of_neg (by simp [hlock, hne])]
      · rw [List.filter_cons_of_pos (by simp [hlock])]
        by_cases ho : e.1 = other
        · have hne : ¬lock = other := fun h => hlock (ho.trans h.symm)
          rw [List.find?_cons_of_pos (by simp [ho]), if_neg hne,
            List.find?_cons_of_pos (by simp [ho])]
        · rw [List.find?_cons_of_neg (by simp [ho]), ih, List.find?_cons_of_neg (by simp [ho])]
  have hset : (f.setShares lock n).shares =
      if n = 0 then f.shares.filter (·.1 != lock) else (lock, n) :: f.shares.filter (·.1 != lock) :=
    rfl
  rw [sharesOf, sharesOf, hset]
  by_cases hn : n = 0
  · rw [if_pos hn, hothers]
    by_cases ho : lock = other
    · rw [if_pos ho, if_pos ho, hn]
    · rw [if_neg ho, if_neg ho]
  · rw [if_neg hn]
    by_cases ho : lock = other
    · rw [if_pos ho, List.find?_cons_of_pos (by simp [ho])]
    · rw [if_neg ho, List.find?_cons_of_neg (by simp [ho]), hothers, if_neg ho]

end Flight

theorem getElem?_set_cases {β : Type} {xs : List β} {i j : Nat} {new x : β}
    (h : (xs.set i new)[j]? = some x) : (j = i ∧ x = new) ∨ (j ≠ i ∧ xs[j]? = some x) := by
  rw [List.getElem?_set] at h
  split at h
  · next he =>
    split at h
    · exact Or.inl ⟨he.symm, (Option.some.inj h).symm⟩
    · cases h
  · next hne => exact Or.inr ⟨fun he => hne he.symm, h⟩

section

variable {keys : Nat → String} {owes : List (List Op)} {f : Flight} {i : Nat} {old new : List Op}

theorem countP_owes_set (hi : owes[i]? = some old) (new : List Op) (p : List Op → Bool) :
    (owes.set i new).countP p + (if p old then 1 else 0) =
      owes.countP p + (if p new then 1 else 0) := by
  obtain ⟨hlength, rfl⟩ := List.getElem?_eq_some_iff.mp hi
  rw [List.countP_set hlength]
  by_cases hold : p owes[i] = true
  · have hpos : 0 < owes.countP p :=
      List.countP_pos_iff.mpr ⟨_, List.getElem_mem hlength, hold⟩
    rw [if_pos hold]
    omega
  · rw [if_neg hold]
    omega

theorem sharers_set (hi : owes[i]? = some old) (new : List Op) (lock : Nat) :
    (owes.set i new).countP (holdsShare lock) + (if holdsShare lock old then 1 else 0) =
      owes.countP (holdsShare lock) + (if holdsShare lock new then 1 else 0) :=
  countP_owes_set hi new (holdsShare lock)

theorem two_sharers {j : Nat} {a b : List Op} {lock : Nat} (hij : i ≠ j) (hi : owes[i]? = some a)
    (hj : owes[j]? = some b) (ha : holdsShare lock a = true) (hb : holdsShare lock b = true) :
    2 ≤ owes.countP (holdsShare lock) := by
  have hset := sharers_set hi [] lock
  have hj' : (owes.set i [])[j]? = some b := by rw [List.getElem?_set_ne hij, hj]
  have hpos : 0 < (owes.set i []).countP (holdsShare lock) :=
    List.countP_pos_iff.mpr ⟨b, List.mem_of_getElem? hj', hb⟩
  rw [ha, if_pos rfl, show holdsShare lock [] = false from rfl] at hset
  simp only [Bool.false_eq_true, if_false] at hset
  omega

/-- The shares in each lock are at least its slots, and one more while the registry lists it. -/
structure Counted (owes : List (List Op)) (f : Flight) : Prop where
  slots : ∀ lock, owes.countP (holdsShare lock) ≤ f.sharesOf lock
  listed : ∀ key lock, Dict.get? f.registry key = some lock →
    owes.countP (holdsShare lock) + 1 ≤ f.sharesOf lock
  single : ∀ key key' lock, Dict.get? f.registry key = some lock →
    Dict.get? f.registry key' = some lock → key = key'
  made : ∀ lock, f.next ≤ lock → f.sharesOf lock = 0

namespace Counted

theorem same (h : Counted owes f) (hi : owes[i]? = some old)
    (hshare : ∀ lock, holdsShare lock new = holdsShare lock old) (held : List Nat) :
    Counted (owes.set i new) { f with held } := by
  have hcount : ∀ lock, (owes.set i new).countP (holdsShare lock) =
      owes.countP (holdsShare lock) := by
    intro lock
    have hset := sharers_set hi new lock
    rw [hshare lock] at hset
    omega
  refine ⟨fun lock => ?_, fun key lock hl => ?_, h.single, h.made⟩
  · rw [hcount]
    exact h.slots lock
  · rw [hcount]
    exact h.listed key lock hl

theorem checkout_listed (h : Counted owes f) (hi : owes[i]? = some []) {s : Slot}
    (hs : Dict.get? f.registry s.key = some s.lock) :
    Counted (owes.set i [.retire s, .forget s])
      (f.setShares s.lock (f.sharesOf s.lock + 1)) := by
  have hcount : ∀ lock, (owes.set i [.retire s, .forget s]).countP (holdsShare lock) =
      owes.countP (holdsShare lock) + if s.lock = lock then 1 else 0 := by
    intro lock
    have hset := sharers_set hi [.retire s, .forget s] lock
    simp only [holdsShare, List.any_nil, List.any_cons, Bool.or_false, Bool.false_or, beq_iff_eq,
      Bool.false_eq_true, if_false] at hset ⊢
    omega
  refine ⟨fun lock => ?_, fun key lock hl => ?_, h.single, fun lock hl => ?_⟩
  · have hslots := h.slots lock
    rw [hcount, Flight.sharesOf_setShares]
    split
    · next heq => rw [heq]; omega
    · omega
  · have hlisted := h.listed key lock hl
    rw [hcount, Flight.sharesOf_setShares]
    split
    · next heq => rw [heq]; omega
    · omega
  · have hzero := h.made lock hl
    have hpos := h.listed _ _ hs
    rw [Flight.sharesOf_setShares, hzero]
    split
    · next heq => rw [heq] at hpos; omega
    · rfl

theorem checkout_new (h : Counted owes f) (hi : owes[i]? = some []) {key : String}
    (hkey : Dict.get? f.registry key = none) :
    Counted (owes.set i [.retire ⟨key, f.next⟩, .forget ⟨key, f.next⟩])
      ({ f with registry := Dict.insert f.registry key f.next, next := f.next + 1 }.setShares
        f.next 2) := by
  have hnone := h.made f.next (Nat.le_refl _)
  have hzero := h.slots f.next
  have hcount : ∀ lock,
      (owes.set i [.retire ⟨key, f.next⟩, .forget ⟨key, f.next⟩]).countP (holdsShare lock) =
        owes.countP (holdsShare lock) + if f.next = lock then 1 else 0 := by
    intro lock
    have hset := sharers_set hi [.retire ⟨key, f.next⟩, .forget ⟨key, f.next⟩] lock
    simp only [holdsShare, List.any_nil, List.any_cons, Bool.or_false, Bool.false_or, beq_iff_eq,
      Bool.false_eq_true, if_false] at hset ⊢
    omega
  have hunlisted : ∀ other, Dict.get? f.registry other ≠ some f.next := by
    intro other hl
    have hpos := h.listed other _ hl
    omega
  have hget : ∀ other lock,
      Dict.get? (Dict.insert f.registry key f.next) other = some lock →
        (other = key ∧ lock = f.next) ∨ (other ≠ key ∧ Dict.get? f.registry other = some lock) := by
    intro other lock hl
    rw [Dict.get?_insert] at hl
    split at hl
    · next heq => exact Or.inl ⟨heq.symm, (Option.some.inj hl).symm⟩
    · next hne => exact Or.inr ⟨fun he => hne he.symm, hl⟩
  refine ⟨fun lock => ?_, fun other lock hl => ?_, fun a b lock ha hb => ?_, fun lock hl => ?_⟩
  · have hslots := h.slots lock
    rw [hcount, Flight.sharesOf_setShares]
    split
    · next heq => rw [← heq]; omega
    · exact hslots
  · rw [hcount, Flight.sharesOf_setShares]
    rcases hget other lock hl with ⟨-, rfl⟩ | ⟨-, hold⟩
    · rw [if_pos rfl, if_pos rfl]
      omega
    · have hne : f.next ≠ lock := fun he => hunlisted other (he ▸ hold)
      rw [if_neg hne, if_neg hne]
      exact h.listed other lock hold
  · rcases hget a lock ha with ⟨rfl, rfl⟩ | ⟨-, hold⟩
    · rcases hget b f.next hb with ⟨rfl, -⟩ | ⟨-, hold'⟩
      · rfl
      · exact absurd hold' (hunlisted b)
    · rcases hget b lock hb with ⟨rfl, rfl⟩ | ⟨-, hold'⟩
      · exact absurd hold (hunlisted a)
      · exact h.single a b lock hold hold'
  · have hlock : f.next + 1 ≤ lock := hl
    rw [Flight.sharesOf_setShares, if_neg (by omega)]
    exact h.made lock (by omega)

theorem retire (h : Counted owes f) {s : Slot} (hi : owes[i]? = some [.retire s, .forget s])
    (hs : f.sharesOf s.lock = 2) (hl : Dict.get? f.registry s.key = some s.lock) :
    Counted (owes.set i [.forget s])
      ({ f with registry := Dict.erase f.registry s.key }.setShares s.lock 1) := by
  have hcount : ∀ lock, (owes.set i [.forget s]).countP (holdsShare lock) =
      owes.countP (holdsShare lock) := by
    intro lock
    have hset := sharers_set hi [.forget s] lock
    simp only [holdsShare, List.any_nil, List.any_cons, Bool.or_false, Bool.false_or] at hset ⊢
    omega
  have hget : ∀ key lock, Dict.get? (Dict.erase f.registry s.key) key = some lock →
      Dict.get? f.registry key = some lock ∧ s.lock ≠ lock := by
    intro key lock hkey
    rw [Dict.get?_erase] at hkey
    split at hkey
    · cases hkey
    · next hne =>
      refine ⟨hkey, fun he => hne ?_⟩
      rw [← he] at hkey
      exact h.single _ _ _ hl hkey
  have hlast := h.listed _ _ hl
  refine ⟨fun lock => ?_, fun key lock hkey => ?_, fun a b lock ha hb => ?_, fun lock hlock => ?_⟩
  · have hslots := h.slots lock
    rw [hcount, Flight.sharesOf_setShares]
    split
    · next heq => rw [← heq]; omega
    · exact hslots
  · obtain ⟨hkey, hne⟩ := hget key lock hkey
    rw [hcount, Flight.sharesOf_setShares, if_neg hne]
    exact h.listed key lock hkey
  · exact h.single a b lock (hget a lock ha).1 (hget b lock hb).1
  · have hzero := h.made lock hlock
    rw [Flight.sharesOf_setShares]
    split
    · next heq => rw [heq] at hs; omega
    · exact hzero

theorem forget (h : Counted owes f) {s : Slot} (hi : owes[i]? = some [.forget s]) :
    Counted (owes.set i []) (f.setShares s.lock (f.sharesOf s.lock - 1)) := by
  have hcount : ∀ lock, (owes.set i []).countP (holdsShare lock) +
      (if s.lock = lock then 1 else 0) = owes.countP (holdsShare lock) := by
    intro lock
    have hset := sharers_set hi [] lock
    simp only [holdsShare, List.any_nil, List.any_cons, Bool.or_false, beq_iff_eq,
      Bool.false_eq_true, if_false] at hset ⊢
    omega
  refine ⟨fun lock => ?_, fun key lock hl => ?_, h.single, fun lock hl => ?_⟩
  · have hslots := h.slots lock
    have hlock := hcount lock
    rw [Flight.sharesOf_setShares]
    split at hlock
    · next heq => rw [if_pos heq, heq]; omega
    · next hne => rw [if_neg hne]; omega
  · have hlisted := h.listed key lock hl
    have hlock := hcount lock
    rw [Flight.sharesOf_setShares]
    split at hlock
    · next heq => rw [if_pos heq, heq]; omega
    · next hne => rw [if_neg hne]; omega
  · have hzero := h.made lock hl
    rw [Flight.sharesOf_setShares]
    split
    · next heq => rw [heq, hzero]
    · exact hzero

end Counted

/-! ### Slots and their locks -/

/-- Slots that are not retired share the lock that is listed under their key, and a lock that is to
be released is held for one task. -/
structure Guarded (keys : Nat → String) (owes : List (List Op)) (f : Flight) : Prop where
  dues : ∀ {i : Nat} {owed : List Op}, owes[i]? = some owed →
    ∃ s : Slot, s.key = keys i ∧ s.Owes owed
  listed : ∀ {i : Nat} {owed : List Op} {s : Slot}, owes[i]? = some owed → .retire s ∈ owed →
    Dict.get? f.registry s.key = some s.lock
  taken : ∀ {i : Nat} {owed : List Op} {s : Slot}, owes[i]? = some owed → .release s ∈ owed →
    s.lock ∈ f.held
  apart : ∀ {i j : Nat} {a b : List Op} {s s' : Slot}, i ≠ j → owes[i]? = some a →
    owes[j]? = some b → .release s ∈ a → .release s' ∈ b → s.lock ≠ s'.lock
  counted : Counted owes f

namespace Guarded

theorem exclusive (h : Guarded keys owes f) {j : Nat} {a b : List Op} {s s' : Slot} (hij : i ≠ j)
    (ha : owes[i]? = some a) (hb : owes[j]? = some b) (hs : .release s ∈ a)
    (hs' : .release s' ∈ b) : keys i ≠ keys j := by
  intro hkey
  obtain ⟨t, ht, hta⟩ := h.dues ha
  obtain ⟨t', ht', htb⟩ := h.dues hb
  obtain ⟨rfl, hretire⟩ := hta.retire_of_release hs
  obtain ⟨rfl, hretire'⟩ := htb.retire_of_release hs'
  have hlock := h.listed ha hretire
  rw [ht, hkey, ← ht', h.listed hb hretire'] at hlock
  exact h.apart hij ha hb hs hs' (Option.some.inj hlock).symm

theorem start {n : Nat} : Guarded keys (List.replicate n []) .empty := by
  have howed : ∀ {i : Nat} {owed : List Op},
      (List.replicate n [])[i]? = some owed → owed = [] := fun h =>
    List.eq_of_mem_replicate (List.mem_of_getElem? h)
  have hcount : ∀ lock, (List.replicate n []).countP (holdsShare lock) = 0 := by
    intro lock
    rw [List.countP_eq_zero]
    intro owed hmem
    rw [List.eq_of_mem_replicate hmem]
    exact Bool.false_ne_true
  refine ⟨fun {i} owed hi => ?_, fun {i owed s} hi hs => ?_, fun {i owed s} hi hs => ?_,
    fun {i j a b s s'} _ ha _ hs => ?_, fun lock => ?_, fun key lock hl => ?_,
    fun key key' lock hl => ?_, fun lock _ => rfl⟩
  · rw [howed hi]
    exact ⟨⟨keys i, 0⟩, rfl, .nothing⟩
  · rw [howed hi] at hs
    cases hs
  · rw [howed hi] at hs
    cases hs
  · rw [howed ha] at hs
    cases hs
  · rw [hcount]
    exact Nat.zero_le _
  · cases hl
  · cases hl

variable {s : Slot} {f' : Flight}

theorem update (h : Guarded keys owes f) (hi : owes[i]? = some old) (hs : s.key = keys i)
    (hdues : s.Owes new)
    (hlisted : .retire s ∈ new → Dict.get? f'.registry s.key = some s.lock)
    (hothers : ∀ {j owed s'}, j ≠ i → owes[j]? = some owed → .retire s' ∈ owed →
      Dict.get? f'.registry s'.key = Dict.get? f.registry s'.key)
    (htaken : .release s ∈ new → s.lock ∈ f'.held)
    (hstill : ∀ {j owed s'}, j ≠ i → owes[j]? = some owed → .release s' ∈ owed →
      s'.lock ∈ f'.held)
    (hapart : ∀ {j owed s'}, j ≠ i → owes[j]? = some owed → .release s ∈ new →
      .release s' ∈ owed → s.lock ≠ s'.lock)
    (hcounted : Counted (owes.set i new) f') : Guarded keys (owes.set i new) f' := by
  refine ⟨fun {j} owed hj => ?_, fun {j owed s'} hj hs' => ?_, fun {j owed s'} hj hs' => ?_,
    fun {j k a b s₁ s₂} hjk ha hb h₁ h₂ => ?_, hcounted⟩
  · rcases getElem?_set_cases hj with ⟨rfl, rfl⟩ | ⟨-, hj⟩
    · exact ⟨s, hs, hdues⟩
    · exact h.dues hj
  · rcases getElem?_set_cases hj with ⟨rfl, rfl⟩ | ⟨hne, hj⟩
    · obtain ⟨rfl, -⟩ := hdues.share_of_retire hs'
      exact hlisted hs'
    · rw [hothers hne hj hs']
      exact h.listed hj hs'
  · rcases getElem?_set_cases hj with ⟨rfl, rfl⟩ | ⟨hne, hj⟩
    · obtain ⟨rfl, -⟩ := hdues.retire_of_release hs'
      exact htaken hs'
    · exact hstill hne hj hs'
  · rcases getElem?_set_cases ha with ⟨rfl, rfl⟩ | ⟨-, hj⟩
    · obtain ⟨rfl, -⟩ := hdues.retire_of_release h₁
      rcases getElem?_set_cases hb with ⟨rfl, -⟩ | ⟨hne, hk⟩
      · exact absurd rfl hjk
      · exact hapart hne hk h₁ h₂
    · rcases getElem?_set_cases hb with ⟨rfl, rfl⟩ | ⟨-, hk⟩
      · obtain ⟨rfl, -⟩ := hdues.retire_of_release h₂
        exact (hapart hjk hj h₂ h₁).symm
      · exact h.apart hjk hj hk h₁ h₂

theorem checkout (h : Guarded keys owes f) (hi : owes[i]? = some []) :
    (f.checkout (keys i)).1.key = keys i ∧
      Guarded keys (owes.set i [.retire (f.checkout (keys i)).1, .forget (f.checkout (keys i)).1])
        (f.checkout (keys i)).2 := by
  unfold Flight.checkout
  cases hkey : Dict.get? f.registry (keys i) with
  | some lock =>
    refine ⟨rfl, h.update hi rfl .slot (fun _ => hkey) (fun _ _ _ => rfl) ?_ ?_ ?_
      (h.counted.checkout_listed hi hkey)⟩
    · intro hs
      simp at hs
    · exact fun _ hj hs' => h.taken hj hs'
    · intro _ _ _ _ _ hs
      simp at hs
  | none =>
    refine ⟨rfl, h.update hi rfl .slot (fun _ => ?_) ?_ ?_ ?_ ?_
      (h.counted.checkout_new hi hkey)⟩
    · exact (Dict.get?_insert f.registry (keys i) f.next (keys i)).trans (if_pos rfl)
    · intro j owed s' _ hj hs'
      refine (Dict.get?_insert f.registry (keys i) f.next s'.key).trans (if_neg fun he => ?_)
      rw [he, h.listed hj hs'] at hkey
      cases hkey
    · intro hs
      simp at hs
    · exact fun _ hj hs' => h.taken hj hs'
    · intro _ _ _ _ _ hs
      simp at hs

theorem acquire (h : Guarded keys owes f) (hi : owes[i]? = some [.retire s, .forget s])
    (hs : s.key = keys i) (hfree : f.isFree s = true) :
    Guarded keys (owes.set i [.release s, .retire s, .forget s]) (f.acquire s) := by
  have hnew : s.lock ∉ f.held := by
    rw [Flight.isFree, Bool.not_eq_true', List.contains_eq_mem, decide_eq_false_iff_not] at hfree
    exact hfree
  have hcounted : Counted (owes.set i [.release s, .retire s, .forget s]) (f.acquire s) :=
    h.counted.same hi (holdsShare_release s) _
  refine h.update hi hs .lock (fun _ => h.listed hi List.mem_cons_self) (fun _ _ _ => rfl)
    (fun _ => List.mem_cons_self) ?_ ?_ hcounted
  · exact fun _ hj hs' => List.mem_cons_of_mem _ (h.taken hj hs')
  · exact fun _ hj _ hs' he => hnew (he ▸ h.taken hj hs')

theorem release (h : Guarded keys owes f)
    (hi : owes[i]? = some [.release s, .retire s, .forget s]) (hs : s.key = keys i) :
    Guarded keys (owes.set i [.retire s, .forget s]) (f.release s) := by
  have hcounted : Counted (owes.set i [.retire s, .forget s]) (f.release s) :=
    h.counted.same hi (fun lock => (holdsShare_release s lock).symm) _
  refine h.update hi hs .slot (fun _ => ?_) (fun _ _ _ => rfl) (fun hs => ?_) ?_ ?_ hcounted
  · exact h.listed hi (List.mem_cons_of_mem _ List.mem_cons_self)
  · simp at hs
  · intro j owed s' hne hj hs'
    have hother := h.apart hne hj hi hs' List.mem_cons_self
    exact (List.mem_erase_of_ne hother).mpr (h.taken hj hs')
  · intro _ _ _ _ _ hs
    simp at hs

theorem retire (h : Guarded keys owes f) (hi : owes[i]? = some [.retire s, .forget s])
    (hs : s.key = keys i) : Guarded keys (owes.set i [.forget s]) (f.retire s) := by
  have hnothing : ∀ {op : Op}, op ∈ [Op.forget s] → op = .forget s := List.mem_singleton.mp
  unfold Flight.retire
  split
  · next hlast =>
    refine h.update hi hs .share (fun hs => ?_) ?_ (fun hs => ?_) ?_ ?_
      (h.counted.retire hi hlast.1 hlast.2)
    · cases hnothing hs
    · intro j owed s' hne hj hs'
      refine (Dict.get?_erase f.registry s.key s'.key).trans (if_neg fun he => ?_)
      -- another slot of the key would be a second share beside that of the registry
      have hlock := h.listed hj hs'
      rw [← he, hlast.2] at hlock
      obtain ⟨t, -, howes⟩ := h.dues hj
      obtain ⟨rfl, hshare⟩ := howes.share_of_retire hs'
      rw [← Option.some.inj hlock] at hshare
      have hself : holdsShare s.lock [.retire s, .forget s] = true := by simp [holdsShare]
      have htwo := two_sharers hne hj hi hshare hself
      have hthree := h.counted.listed _ _ hlast.2
      omega
    · cases hnothing hs
    · exact fun _ hj hs' => h.taken hj hs'
    · intro _ _ _ _ _ hs
      cases hnothing hs
  · refine h.update hi hs .share (fun hs => ?_) (fun _ _ _ => rfl) (fun hs => ?_) ?_ ?_
      (h.counted.same hi (fun lock => ?_) f.held)
    · cases hnothing hs
    · cases hnothing hs
    · exact fun _ hj hs' => h.taken hj hs'
    · intro _ _ _ _ _ hs
      cases hnothing hs
    · simp [holdsShare]

theorem forget (h : Guarded keys owes f) (hi : owes[i]? = some [.forget s])
    (hs : s.key = keys i) : Guarded keys (owes.set i []) (f.forget s) := by
  refine h.update hi hs .nothing (fun hs => ?_) (fun _ _ _ => rfl) (fun hs => ?_) ?_ ?_
    (h.counted.forget hi)
  · cases hs
  · cases hs
  · exact fun _ hj hs' => h.taken hj hs'
  · intro _ _ _ _ _ hs
    cases hs

end Guarded

end

end TokenKeeper
