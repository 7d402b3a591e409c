import TokenKeeper.Proofs.Client.SingleFlight

/-!
# Locks that stay listed

A slot is given back in two steps, and another task may step in between. Whether a lock leaves the
registry is decided when a slot is retired, by the number of shares; and a slot that has been
retired but not forgotten still has its share. So a lock stays listed, with nobody left to remove
it, exactly if its last slot was retired while another one was still on its way out.
-/
namespace TokenKeeper

/-! ### Shares to the last one -/

section

variable {keys : Nat → String} {owes : List (List Op)} {f : Flight} {i : Nat} {old new : List Op}
  {name : Nat → String} {s : Slot}

def Flight.listing (f : Flight) (key : String) (lock : Nat) : Nat :=
  if Dict.get? f.registry key = some lock then 1 else 0

/-- The shares in each lock are its slots, and one more while the registry lists it. Each lock has
one name, under which it is listed and shared. -/
structure Exact (name : Nat → String) (owes : List (List Op)) (f : Flight) : Prop where
  shares : ∀ lock, f.sharesOf lock = owes.countP (holdsShare lock) + f.listing (name lock) lock
  listed : ∀ {key : String} {lock : Nat}, Dict.get? f.registry key = some lock → name lock = key
  named : ∀ {i : Nat} {owed : List Op} {s : Slot}, owes[i]? = some owed → .forget s ∈ owed →
    name s.lock = s.key

theorem holdsShare_iff {lock : Nat} {owed : List Op} :
    holdsShare lock owed = true ↔ ∃ s : Slot, .forget s ∈ owed ∧ s.lock = lock := by
  rw [holdsShare, List.any_eq_true]
  constructor
  · rintro ⟨op, hop, hlock⟩
    cases op with
    | forget s => exact ⟨s, hop, beq_iff_eq.mp hlock⟩
    | _ => cases hlock
  · rintro ⟨s, hs, rfl⟩
    exact ⟨.forget s, hs, beq_self_eq_true s.lock⟩

theorem holdsShare_nil (lock : Nat) : holdsShare lock [] = false := rfl

theorem holdsShare_slot (s : Slot) (lock : Nat) :
    holdsShare lock [.retire s, .forget s] = (s.lock == lock) := by
  simp [holdsShare]

theorem holdsShare_share (s : Slot) (lock : Nat) :
    holdsShare lock [.forget s] = (s.lock == lock) := by
  simp [holdsShare]

theorem Counted.lock_lt (h : Counted owes f) {owed : List Op} {s : Slot}
    (hi : owes[i]? = some owed) (hs : .forget s ∈ owed) : s.lock < f.next := by
  have hpos : 0 < owes.countP (holdsShare s.lock) :=
    List.countP_pos_iff.mpr ⟨owed, List.mem_of_getElem? hi, holdsShare_iff.mpr ⟨s, hs, rfl⟩⟩
  have hslots := h.slots s.lock
  have hmade := h.made s.lock
  omega

theorem Counted.listed_lt (h : Counted owes f) {key : String} {lock : Nat}
    (hl : Dict.get? f.registry key = some lock) : lock < f.next := by
  have hlisted := h.listed key lock hl
  have hmade := h.made lock
  omega

namespace Exact

theorem start {n : Nat} : Exact name (List.replicate n []) .empty where
  shares lock := by
    have hnone : (List.replicate n []).countP (holdsShare lock) = 0 := by
      rw [List.countP_eq_zero]
      intro owed howed
      rw [List.eq_of_mem_replicate howed]
      exact Bool.false_ne_true
    rw [hnone]
    rfl
  listed h := by cases h
  named h hs := by
    rw [List.eq_of_mem_replicate (List.mem_of_getElem? h)] at hs
    cases hs

theorem named_set (h : Exact name owes f)
    (hnew : ∀ s, .forget s ∈ new → name s.lock = s.key) {j : Nat} {owed : List Op} {s : Slot}
    (hj : (owes.set i new)[j]? = some owed) (hs : .forget s ∈ owed) : name s.lock = s.key := by
  rcases getElem?_set_cases hj with ⟨-, rfl⟩ | ⟨-, hj⟩
  · exact hnew s hs
  · exact h.named hj hs

theorem same (h : Exact name owes f) (hi : owes[i]? = some old)
    (hforget : ∀ s, .forget s ∈ new ↔ .forget s ∈ old) (held : List Nat) :
    Exact name (owes.set i new) { f with held } := by
  have hshare : ∀ lock, holdsShare lock new = holdsShare lock old := by
    intro lock
    rw [Bool.eq_iff_iff, holdsShare_iff, holdsShare_iff]
    simp only [hforget]
  refine ⟨fun lock => ?_, h.listed, h.named_set fun s hs => h.named hi ((hforget s).mp hs)⟩
  have hset := sharers_set hi new lock
  have hshares := h.shares lock
  rw [hshare] at hset
  change f.sharesOf lock = _ + f.listing (name lock) lock
  omega

theorem checkout_listed (h : Exact name owes f) (hi : owes[i]? = some []) {s : Slot}
    (hs : Dict.get? f.registry s.key = some s.lock) :
    Exact name (owes.set i [.retire s, .forget s])
      (f.setShares s.lock (f.sharesOf s.lock + 1)) := by
  refine ⟨fun lock => ?_, h.listed, h.named_set fun t ht => ?_⟩
  · have hset := sharers_set hi [.retire s, .forget s] lock
    have hshares := h.shares lock
    change _ = _ + f.listing (name lock) lock
    rw [holdsShare_nil, holdsShare_slot] at hset
    rw [Flight.sharesOf_setShares]
    split
    · next heq =>
      subst heq
      simp at hset
      omega
    · next hne =>
      simp [hne] at hset
      omega
  · have hts : t = s := by simpa using ht
    rw [hts]
    exact h.listed hs

theorem checkout_new (h : Exact name owes f) (hc : Counted owes f) (hi : owes[i]? = some [])
    {key : String} (hkey : Dict.get? f.registry key = none) :
    Exact (Function.update name f.next key)
      (owes.set i [.retire ⟨key, f.next⟩, .forget ⟨key, f.next⟩])
      ({ f with registry := Dict.insert f.registry key f.next, next := f.next + 1 }.setShares
        f.next 2) := by
  have hold : ∀ {lock}, lock < f.next → Function.update name f.next key lock = name lock :=
    fun hlt => Function.update_of_ne (Nat.ne_of_lt hlt) key name
  refine ⟨fun lock => ?_, fun {other lock} hl => ?_, fun {j owed s} hj hs => ?_⟩
  · have hset := sharers_set hi [.retire ⟨key, f.next⟩, .forget ⟨key, f.next⟩] lock
    have hshares := h.shares lock
    rw [holdsShare_nil, holdsShare_slot] at hset
    rw [Flight.sharesOf_setShares]
    change (if f.next = lock then 2 else f.sharesOf lock) = _ +
      if Dict.get? (Dict.insert f.registry key f.next) (Function.update name f.next key lock) =
        some lock then 1 else 0
    rw [Dict.get?_insert]
    by_cases hlock : f.next = lock
    · subst hlock
      have hslots := hc.slots f.next
      have hmade := hc.made f.next (Nat.le_refl _)
      rw [if_pos rfl, Function.update_self, if_pos rfl, if_pos rfl]
      simp at hset
      omega
    · rw [if_neg hlock, Function.update_of_ne (Ne.symm hlock)]
      have hlisting : (if (if key = name lock then some f.next else
          Dict.get? f.registry (name lock)) = some lock then 1 else 0) =
            f.listing (name lock) lock := by
        unfold Flight.listing
        split
        · next hname => rw [← hname, hkey, if_neg (by simpa using hlock), if_neg (by simp)]
        · rfl
      rw [hlisting]
      simp [hlock] at hset
      omega
  · change Dict.get? (Dict.insert f.registry key f.next) other = some lock at hl
    rw [Dict.get?_insert] at hl
    split at hl
    · next heq =>
      cases hl
      rw [Function.update_self]
      exact heq
    · rw [hold (hc.listed_lt hl)]
      exact h.listed hl
  · rcases getElem?_set_cases hj with ⟨-, rfl⟩ | ⟨-, hj⟩
    · have hsnew : s = ⟨key, f.next⟩ := by simpa using hs
      rw [hsnew]
      exact Function.update_self ..
    · rw [hold (hc.lock_lt hj hs)]
      exact h.named hj hs

theorem retire (h : Exact name owes f) (hi : owes[i]? = some [.retire s, .forget s]) :
    Exact name (owes.set i [.forget s]) (f.retire s) := by
  have hsame : Exact name (owes.set i [.forget s]) { f with held := f.held } :=
    h.same hi (by simp) f.held
  unfold Flight.retire
  split
  · next hlast =>
    have hname := h.listed hlast.2
    refine ⟨fun lock => ?_, fun {key lock} hl => ?_, hsame.named⟩
    · have hshares := hsame.shares lock
      change f.sharesOf lock = _ + f.listing (name lock) lock at hshares
      rw [Flight.sharesOf_setShares]
      change (if s.lock = lock then 1 else f.sharesOf lock) = _ +
        if Dict.get? (Dict.erase f.registry s.key) (name lock) = some lock then 1 else 0
      rw [Dict.get?_erase]
      by_cases hlock : s.lock = lock
      · subst hlock
        have hlisting : f.listing (name s.lock) s.lock = 1 := by
          rw [hname, Flight.listing, if_pos hlast.2]
        rw [if_pos rfl, hname, if_pos rfl, if_neg (by simp)]
        omega
      · rw [if_neg hlock]
        have hlisting : (if (if s.key = name lock then none else
            Dict.get? f.registry (name lock)) = some lock then 1 else 0) =
              f.listing (name lock) lock := by
          unfold Flight.listing
          split
          · next heq => rw [← heq, hlast.2, if_neg (by simp), if_neg (by simpa using hlock)]
          · rfl
        rw [hlisting]
        exact hshares
    · change Dict.get? (Dict.erase f.registry s.key) key = some lock at hl
      rw [Dict.get?_erase] at hl
      split at hl
      · cases hl
      · exact h.listed hl
  · exact hsame

theorem forget (h : Exact name owes f) (hi : owes[i]? = some [.forget s]) :
    Exact name (owes.set i []) (f.forget s) := by
  refine ⟨fun lock => ?_, h.listed, h.named_set (by simp)⟩
  have hset := sharers_set hi [] lock
  have hshares := h.shares lock
  change (f.setShares s.lock (f.sharesOf s.lock - 1)).sharesOf lock = _ + f.listing (name lock) lock
  rw [holdsShare_nil, holdsShare_share] at hset
  rw [Flight.sharesOf_setShares]
  split
  · next heq =>
    subst heq
    simp at hset
    omega
  · next hne =>
    simp [hne] at hset
    omega

theorem listed_retire_iff (h : Exact name owes f) (hi : owes[i]? = some [.retire s, .forget s])
    (hl : Dict.get? f.registry s.key = some s.lock) :
    (Dict.get? (f.retire s).registry s.key).isSome = true ↔
      ∃ j owed, j ≠ i ∧ owes[j]? = some owed ∧ .forget s ∈ owed := by
  have hname := h.listed hl
  have hshares := h.shares s.lock
  have hset := sharers_set hi [] s.lock
  have hlisting : f.listing (name s.lock) s.lock = 1 := by
    rw [hname, Flight.listing, if_pos hl]
  rw [holdsShare_nil, holdsShare_slot] at hset
  simp at hset
  constructor
  · intro hstill
    -- The share of the registry and that of the slot itself are not all.
    have hmore : ¬ f.sharesOf s.lock = 2 := by
      intro htwo
      rw [Flight.retire, if_pos ⟨htwo, hl⟩] at hstill
      change (Dict.get? (Dict.erase f.registry s.key) s.key).isSome = true at hstill
      rw [Dict.get?_erase, if_pos rfl] at hstill
      cases hstill
    have hpos : 0 < (owes.set i []).countP (holdsShare s.lock) := by omega
    obtain ⟨owed, howed, hshare⟩ := List.countP_pos_iff.mp hpos
    obtain ⟨t, ht, hlock⟩ := holdsShare_iff.mp hshare
    obtain ⟨j, hj⟩ := List.mem_iff_getElem?.mp howed
    rcases getElem?_set_cases hj with ⟨-, rfl⟩ | ⟨hne, hj⟩
    · cases ht
    · have hkey := h.named hj ht
      have hts : t = s := by
        rw [hlock, hname] at hkey
        cases t
        cases s
        simp_all
      exact ⟨j, owed, hne, hj, hts ▸ ht⟩
  · rintro ⟨j, owed, hne, hj, hs⟩
    have hself : holdsShare s.lock [.retire s, .forget s] = true := by simp [holdsShare]
    have htwo := two_sharers hne hj hi (holdsShare_iff.mpr ⟨s, hs, rfl⟩) hself
    rw [Flight.retire, if_neg (by omega), hl]
    rfl

end Exact

end

/-! ### Slots on their way out -/

/-- What the history of a key says of its slots: those that are retired and not forgotten, and
whether the last one that was retired found another one of its lock among them. -/
structure Drops where
  dropping : List Slot
  overlapped : Bool

def Drops.next (key : String) (d : Drops) (e : Event) : Drops :=
  match e.op with
  | .retire s => if s.key = key then ⟨s :: d.dropping, d.dropping.contains s⟩ else d
  | .forget s => { d with dropping := d.dropping.erase s }
  | _ => d

def drops (key : String) (past : List Event) : Drops := past.foldl (Drops.next key) ⟨[], false⟩

theorem drops_concat (key : String) (past : List Event) (e : Event) :
    drops key (past ++ [e]) = (drops key past).next key e := by
  rw [drops, List.foldl_append]
  rfl

/-- Whether all that a task owes is to forget a slot. -/
def isDropping (s : Slot) : List Op → Bool
  | [.forget s'] => s' == s
  | _ => false

theorem isDropping_iff {s : Slot} {owed : List Op} :
    isDropping s owed = true ↔ owed = [.forget s] := by
  unfold isDropping
  split
  · simp
  · next h =>
    simp only [Bool.false_eq_true, false_iff]
    rintro rfl
    exact h s rfl

section

variable {keys : Nat → String} {owes : List (List Op)} {f f' : Flight} {i : Nat}
  {old new : List Op} {s : Slot} {key : String} {d d' : Drops}

theorem droppers_set (hi : owes[i]? = some old) (new : List Op) (s : Slot) :
    (owes.set i new).countP (isDropping s) + (isDropping s old).toNat =
      owes.countP (isDropping s) + (isDropping s new).toNat := by
  have hset := countP_owes_set hi new (isDropping s)
  cases hold : isDropping s old <;> cases hnew : isDropping s new <;>
    simpa [hold, hnew] using hset

def Retires (key : String) (owes : List (List Op)) : Prop :=
  ∃ (i : Nat) (owed : List Op) (s : Slot), owes[i]? = some owed ∧ .retire s ∈ owed ∧ s.key = key

/-- The history of a key agrees with what is owed and listed. Unless a slot of the key is still to
be retired, its lock is listed if the last one was retired with another on its way out. -/
structure Traced (key : String) (owes : List (List Op)) (f : Flight) (d : Drops) : Prop where
  exact : ∃ name, Exact name owes f
  dropping : ∀ s : Slot, s.key = key → d.dropping.count s = owes.countP (isDropping s)
  listed : Retires key owes ∨ (Dict.get? f.registry key).isSome = d.overlapped

namespace Traced

theorem start {n : Nat} : Traced key (List.replicate n []) .empty ⟨[], false⟩ where
  exact := ⟨fun _ => key, .start⟩
  dropping s _ := by
    symm
    rw [List.count_nil, List.countP_eq_zero]
    intro owed howed
    rw [List.eq_of_mem_replicate howed]
    exact Bool.false_ne_true
  listed := Or.inr rfl

theorem update (h : Traced key owes f d) (hi : owes[i]? = some old)
    (hexact : ∃ name, Exact name (owes.set i new) f')
    (hdropping : ∀ s : Slot, s.key = key → d'.dropping.count s + (isDropping s old).toNat =
      d.dropping.count s + (isDropping s new).toNat)
    (hretire : ∀ s : Slot, s.key = key → .retire s ∈ old → .retire s ∈ new)
    (hlisted : (∃ s, .retire s ∈ new ∧ s.key = key) ∨
      Dict.get? f'.registry key = Dict.get? f.registry key ∧ d'.overlapped = d.overlapped) :
    Traced key (owes.set i new) f' d' := by
  have hself := List.getElem?_set_self (a := new) (List.getElem?_eq_some_iff.mp hi).1
  refine ⟨hexact, fun s hs => ?_, ?_⟩
  · have hset := droppers_set hi new s
    have hcount := hdropping s hs
    have hbefore := h.dropping s hs
    omega
  · rcases hlisted with ⟨s, hs, hkey⟩ | ⟨hregistry, hoverlapped⟩
    · exact Or.inl ⟨i, new, s, hself, hs, hkey⟩
    · rw [hregistry, hoverlapped]
      refine h.listed.imp_left ?_
      rintro ⟨j, owed, s, hj, hs, hkey⟩
      by_cases hij : i = j
      · subst hij
        rw [hi] at hj
        cases hj
        exact ⟨i, new, s, hself, hretire s hkey hs, hkey⟩
      · exact ⟨j, owed, s, (List.getElem?_set_ne hij).trans hj, hs, hkey⟩

theorem checkout (h : Traced key owes f d) (hg : Guarded keys owes f) (hi : owes[i]? = some []) :
    Traced key (owes.set i
      [.retire (f.checkout (keys i)).1, .forget (f.checkout (keys i)).1])
      (f.checkout (keys i)).2 d := by
  obtain ⟨name, hexact⟩ := h.exact
  have hslot : ∀ {s : Slot} {f' : Flight}, s.key = keys i →
      (keys i ≠ key → Dict.get? f'.registry key = Dict.get? f.registry key) →
      (∃ name, Exact name (owes.set i [.retire s, .forget s]) f') →
      Traced key (owes.set i [.retire s, .forget s]) f' d := by
    intro s f' hs hregistry hexact
    refine h.update hi hexact (fun _ _ => rfl) (fun _ _ ht => by cases ht) ?_
    by_cases hkey : keys i = key
    · exact Or.inl ⟨s, List.mem_cons_self, hs.trans hkey⟩
    · exact Or.inr ⟨hregistry hkey, rfl⟩
  unfold Flight.checkout
  cases hkey : Dict.get? f.registry (keys i) with
  | some lock => exact hslot rfl (fun _ => rfl) ⟨name, hexact.checkout_listed hi hkey⟩
  | none =>
    refine hslot rfl (fun hne => ?_) ⟨_, hexact.checkout_new hg.counted hi hkey⟩
    exact (Dict.get?_insert ..).trans (if_neg hne)

theorem same (h : Traced key owes f d) (hi : owes[i]? = some old)
    (hforget : ∀ s, .forget s ∈ new ↔ .forget s ∈ old)
    (hretire : ∀ s, .retire s ∈ old → .retire s ∈ new)
    (hdropping : ∀ s, isDropping s old = isDropping s new) (held : List Nat) :
    Traced key (owes.set i new) { f with held } d := by
  obtain ⟨name, hexact⟩ := h.exact
  refine h.update hi ⟨name, hexact.same hi hforget held⟩ (fun s _ => ?_)
    (fun s _ => hretire s) (Or.inr ⟨rfl, rfl⟩)
  rw [hdropping]

theorem acquire (h : Traced key owes f d) (hi : owes[i]? = some [.retire s, .forget s]) :
    Traced key (owes.set i [.release s, .retire s, .forget s]) (f.acquire s) d := by
  refine h.same hi ?_ ?_ ?_ (s.lock :: f.held)
  · simp
  · simp
  · exact fun _ => rfl

theorem release (h : Traced key owes f d)
    (hi : owes[i]? = some [.release s, .retire s, .forget s]) :
    Traced key (owes.set i [.retire s, .forget s]) (f.release s) d := by
  refine h.same hi ?_ ?_ ?_ (f.held.erase s.lock)
  · simp
  · simp
  · exact fun _ => rfl

theorem forget (h : Traced key owes f d) (hi : owes[i]? = some [.forget s]) :
    Traced key (owes.set i []) (f.forget s) { d with dropping := d.dropping.erase s } := by
  obtain ⟨name, hexact⟩ := h.exact
  refine h.update hi ⟨name, hexact.forget hi⟩ (fun t ht => ?_) (by simp) (Or.inr ⟨rfl, rfl⟩)
  have hcount := h.dropping t ht
  change (d.dropping.erase s).count t + (s == t).toNat = d.dropping.count t + 0
  by_cases hst : s = t
  · subst hst
    have hpos : 0 < owes.countP (isDropping s) := List.countP_pos_iff.mpr
      ⟨_, List.mem_of_getElem? hi, isDropping_iff.mpr rfl⟩
    rw [List.count_erase_self, beq_self_eq_true, Bool.toNat_true]
    omega
  · rw [List.count_erase_of_ne (Ne.symm hst), beq_false_of_ne hst]
    rfl

theorem retire_other (h : Traced key owes f d) (hi : owes[i]? = some [.retire s, .forget s])
    (hs : s.key ≠ key) : Traced key (owes.set i [.forget s]) (f.retire s) d := by
  obtain ⟨name, hexact⟩ := h.exact
  refine h.update hi ⟨name, hexact.retire hi⟩ (fun t ht => ?_) (fun t ht hretire => ?_)
    (Or.inr ⟨?_, rfl⟩)
  · have hst : (s == t) = false := beq_false_of_ne fun he => hs (he ▸ ht)
    change _ = d.dropping.count t + (s == t).toNat
    rw [hst]
    rfl
  · have hts : t = s := by simpa using hretire
    exact absurd (hts ▸ ht) hs
  · unfold Flight.retire
    split
    · exact (Dict.get?_erase ..).trans (if_neg hs)
    · rfl

theorem retire (h : Traced key owes f d) (hg : Guarded keys owes f)
    (hi : owes[i]? = some [.retire s, .forget s]) (hs : s.key = key) :
    Traced key (owes.set i [.forget s]) (f.retire s)
      ⟨s :: d.dropping, d.dropping.contains s⟩ := by
  obtain ⟨name, hexact⟩ := h.exact
  refine ⟨⟨name, hexact.retire hi⟩, fun t ht => ?_, ?_⟩
  · have hset := droppers_set hi [.forget s] t
    change _ + 0 = _ + (s == t).toNat at hset
    have hcount := h.dropping t ht
    rw [List.count_cons, hcount]
    cases hst : s == t <;> simp [hst] at hset ⊢ <;> omega
  · by_cases hothers : Retires key (owes.set i [.forget s])
    · exact Or.inl hothers
    · right
      subst hs
      have hiff := hexact.listed_retire_iff hi (hg.listed hi List.mem_cons_self)
      rw [Bool.eq_iff_iff, hiff, List.contains_iff_mem, ← List.count_pos_iff, h.dropping s rfl,
        List.countP_pos_iff]
      constructor
      · rintro ⟨j, owed, hne, hj, hforget⟩
        refine ⟨owed, List.mem_of_getElem? hj, isDropping_iff.mpr ?_⟩
        -- A task that shares the lock and has yet to retire its slot would be another one.
        have hretires : ∀ t : Slot, .retire t ∈ owed → t.key = s.key → False :=
          fun t ht hkey => hothers ⟨j, owed, t,
            (List.getElem?_set_ne (Ne.symm hne)).trans hj, ht, hkey⟩
        obtain ⟨t, -, howes⟩ := hg.dues hj
        cases howes with
        | nothing => cases hforget
        | share =>
          have hst : s = t := by simpa using hforget
          rw [hst]
        | slot =>
          have hst : s = t := by simpa using hforget
          exact (hretires t List.mem_cons_self (by rw [hst])).elim
        | lock =>
          have hst : s = t := by simpa using hforget
          exact (hretires t (by simp) (by rw [hst])).elim
      · rintro ⟨owed, howed, hdropping⟩
        rw [isDropping_iff] at hdropping
        obtain ⟨j, hj⟩ := List.mem_iff_getElem?.mp howed
        subst hdropping
        refine ⟨j, _, ?_, hj, List.mem_cons_self⟩
        rintro rfl
        rw [hi] at hj
        cases hj

end Traced

end

/-! ### All moves of all tasks -/

structure Followed (keys : Nat → String) (key : String) {Phase : Type} (s : PoolState Phase) :
    Prop where
  guarded : Guarded keys s.owes s.world.flight
  traced : Traced key s.owes s.world.flight (drops key s.past)

namespace Followed

variable {Phase : Type} {keys : Nat → String} {key : String} {s : PoolState Phase} {i : Nat}
  {op : Op} {owed : List Op}

theorem step (h : Followed keys key s) (hi : s.owes[i]? = some owed)
    (he : World.enabled op s.world = true) (hfits : op.Fits (keys i) owed) (next : Phase) :
    op.Fitting (World.perform op s.world).1 ∧
      Followed keys key (s.step i op (Task.owe owed op (World.perform op s.world).1) next) := by
  obtain ⟨hfitting, hguarded⟩ := h.guarded.perform hi he hfits
  refine ⟨hfitting, hguarded, ?_⟩
  simp only [PoolState.step]
  rw [drops_concat]
  cases hop : op.isLocking with
  | false =>
    obtain ⟨hlength, hget⟩ := List.getElem?_eq_some_iff.mp hi
    have hsame : (drops key s.past).next key ⟨i, op, (World.perform op s.world).1⟩ =
        drops key s.past := by
      cases op <;> first | contradiction | rfl
    rw [Task.owe_unlocked hop, World.flight_perform hop, ← hget, List.set_getElem_self hlength,
      hsame]
    exact h.traced
  | true =>
    cases op with
    | checkout k =>
      obtain ⟨rfl, rfl⟩ := hfits
      exact h.traced.checkout h.guarded hi
    | acquire slot =>
      obtain ⟨-, rfl⟩ := hfits
      exact h.traced.acquire hi
    | release slot =>
      obtain ⟨-, rfl⟩ := hfits
      exact h.traced.release hi
    | retire slot =>
      obtain ⟨-, rfl⟩ := hfits
      by_cases hkey : slot.key = key
      · have hretired := h.traced.retire h.guarded hi hkey
        simp only [Drops.next, if_pos hkey]
        exact hretired
      · have hretired := h.traced.retire_other hi hkey
        simp only [Drops.next, if_neg hkey]
        exact hretired
    | forget slot =>
      obtain ⟨-, rfl⟩ := hfits
      exact h.traced.forget hi
    | _ => contradiction

theorem due (h : Followed keys key s) (hi : s.owes[i]? = some (op :: owed)) (next : Phase) :
    Followed keys key (s.step i op owed next) := by
  obtain ⟨hfits, howe, henabled⟩ := h.guarded.fits_due hi
  rw [← howe (World.perform op s.world).1]
  exact (h.step hi (henabled _) hfits next).2

end Followed

theorem upholds_followed (calls : List ClientTask) (key : String) :
    Upholds (fun i => (callAt calls i).rules) (Followed (fun i => (callAt calls i).key) key)
    where
  step h hi he hallows := h.step hi he hallows.1 ()
  due h hi _ _ := h.due hi ()
  stop h := ⟨h.guarded, h.traced⟩
  clock h := ⟨h.guarded, h.traced⟩

namespace Client

variable {client : Client} {w : World}

/-- With one refresh at a time, once no slot of a key is to be retired any more, the registry lists
a lock for the key exactly if the last of its slots was retired while another one of the same lock
had been retired and not yet forgotten. -/
theorem listed_iff_overlapped (hmode : client.mode = .singleFlight)
    (hstore : ∀ store ∈ client.store, store.StoreOnly) (calls : List ClientTask)
    (hw : w.flight = .empty) (ms : List Move) (key : String)
    (hidle : ¬ Retires key ((client.pool calls w).after ms).owes) :
    (Dict.get? ((client.pool calls w).after ms).world.flight.registry key).isSome =
      (drops key ((client.pool calls w).events ms)).overlapped := by
  have hobeys : (client.pool calls w).Obeys (fun i => (callAt calls i).rules)
      (fun _ _ _ _ => True) (fun _ => ()) := by
    refine obeys_pool fun i v hv => ?_
    rw [callAt_eq hv]
    cases v with
    | accessToken key => exact obeys_accessToken hstore hmode key
    | login username password credentials => exact obeys_login hstore username password credentials
  have hstart : Followed (fun i => (callAt calls i).key) key
      (⟨(client.pool calls w).owes, w, fun _ => (), []⟩ : PoolState Unit) := by
    rw [owes_pool]
    refine ⟨?_, ?_⟩
    · change Guarded _ _ w.flight
      rw [hw]
      exact .start
    · change Traced key _ w.flight _
      rw [hw]
      exact .start
  obtain ⟨phase, -, hfollowed⟩ := hobeys.after (upholds_followed calls key) hstart ms
  exact hfollowed.traced.listed.resolve_left hidle

end Client

/-! ### Two callers that leave -/

namespace Expiring

def releasing : List Move :=
  List.replicate 3 (.run 0) ++ List.replicate 3 (.run 1) ++ List.replicate 6 (.run 0) ++
    List.replicate 6 (.run 1)

def apart : List Move := releasing ++ [.run 0, .run 0, .run 1, .run 1]

def interleaved : List Move := releasing ++ [.run 0, .run 1, .run 0, .run 1]

theorem none_listed_apart :
    (pool.after apart).owes = [[], []] ∧
      Dict.get? (pool.after apart).world.flight.registry "u1" = none := by
  have howes : (pool.after apart).owes = [[], []] := rfl
  have hstore : ∀ store ∈ client.store, store.StoreOnly := by
    rintro _ ⟨⟩
    exact TokenStore.memory_storeOnly
  have hidle : ¬ Retires "u1" (pool.after apart).owes := by
    rw [howes]
    rintro ⟨i, owed, s, hi, hs, -⟩
    have hnothing : owed = [] := by simpa using List.mem_of_getElem? hi
    rw [hnothing] at hs
    cases hs
  have hlisted := Client.listed_iff_overlapped rfl hstore
    [.accessToken "u1", .accessToken "u1"] rfl apart "u1" hidle
  have hnot : (drops "u1" (pool.events apart)).overlapped = false := rfl
  exact ⟨howes, Option.not_isSome_iff_eq_none.mp (Bool.eq_false_iff.mp (hlisted.trans hnot))⟩

/-- A lock that nobody will remove: both callers have got their answers and owe nothing. -/
theorem one_listed_interleaved :
    (pool.after interleaved).owes = [[], []] ∧
      (pool.after interleaved).tasks.map Task.result? =
        [some (.error (.unanswered .refresh)), some (.error (.unanswered .refresh))] ∧
      (pool.after interleaved).world.flight.registry = [("u1", 0)] ∧
      (drops "u1" (pool.events interleaved)).overlapped = true := ⟨rfl, rfl, rfl, rfl⟩

end Expiring
end TokenKeeper
