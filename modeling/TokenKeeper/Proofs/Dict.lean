import TokenKeeper.Dict

/-!
# Laws of dictionaries

What a row of insertions answers, and that two dictionaries in order which answer every key alike
are equal. A dictionary made by insertions is in order, so equality of what is stored can be read
off the answers key by key.
-/
namespace TokenKeeper.Dict

variable {α β : Type}

@[simp] theorem insertAll_cons (d : Dict α) (e : String × α) (es : List (String × α)) :
    insertAll d (e :: es) = insertAll (insert d e.1 e.2) es := rfl

theorem mem_keys_of_get? {d : Dict α} {key : String} {value : α} (h : get? d key = some value) :
    key ∈ keys d := by
  induction d with
  | nil => cases h
  | cons e rest ih =>
    rw [get?] at h
    split at h
    · next he => exact he ▸ List.mem_cons_self
    · exact List.mem_cons_of_mem _ (ih h)

theorem get?_eq_none_of_notMem {d : Dict α} {key : String} (h : key ∉ keys d) :
    get? d key = none := by
  cases hget : get? d key with
  | none => rfl
  | some value => exact absurd (mem_keys_of_get? hget) h

theorem get?_map (d : Dict α) (f : α → β) (key : String) :
    get? (d.map fun e => (e.1, f e.2)) key = (get? d key).map f := by
  induction d with
  | nil => rfl
  | cons e rest ih =>
    rw [List.map_cons, get?, get?, ih]
    split <;> rfl

theorem get?_append (d d' : Dict α) (key : String) :
    get? (d ++ d') key = (get? d key).or (get? d' key) := by
  induction d with
  | nil => rfl
  | cons e rest ih =>
    rw [List.cons_append, get?, get?, ih]
    split <;> rfl

/-! ### Order -/

def Ordered (d : Dict α) : Prop := d.Pairwise fun a b => a.1 < b.1

theorem lt_of_not {a b : String} (hne : ¬ a = b) (hlt : ¬ b < a) : a < b := by
  rcases Std.le_total (a := a) (b := b) with h | h
  · exact Std.lt_of_le_of_ne h hne
  · exact absurd (Std.lt_of_le_of_ne h (Ne.symm hne)) hlt

theorem ordered_nil : Ordered ([] : Dict α) := List.Pairwise.nil

theorem eq_or_mem_of_mem_insert {d : Dict α} {key : String} {value : α} {e : String × α}
    (h : e ∈ insert d key value) : e = (key, value) ∨ e ∈ d := by
  induction d with
  | nil => simpa [insert] using h
  | cons x rest ih =>
    simp only [insert] at h
    split at h
    · rcases List.mem_cons.mp h with h | h
      · exact Or.inl h
      · exact Or.inr (List.mem_cons_of_mem _ h)
    · split at h
      · exact List.mem_cons.mp h
      · rcases List.mem_cons.mp h with h | h
        · exact Or.inr (h ▸ List.mem_cons_self)
        · exact (ih h).imp_right (List.mem_cons_of_mem _)

theorem mem_keys_insert {d : Dict α} {key : String} {value : α} {e : String × α}
    (h : e ∈ insert d key value) : e.1 = key ∨ e ∈ d :=
  (eq_or_mem_of_mem_insert h).imp_left (congrArg Prod.fst)

theorem Ordered.insert {d : Dict α} (h : Ordered d) (key : String) (value : α) :
    Ordered (insert d key value) := by
  induction d with
  | nil => exact List.pairwise_singleton _ _
  | cons x rest ih =>
    obtain ⟨k, v⟩ := x
    obtain ⟨hhead, hrest⟩ := List.pairwise_cons.mp h
    simp only [Dict.insert]
    split
    · next hk => exact List.pairwise_cons.mpr ⟨fun e he => hk ▸ hhead e he, hrest⟩
    · next hk =>
      split
      · next hlt =>
        refine List.pairwise_cons.mpr ⟨fun e he => ?_, h⟩
        rcases List.mem_cons.mp he with he | he
        · exact he ▸ hlt
        · exact String.lt_trans hlt (hhead e he)
      · next hlt =>
        refine List.pairwise_cons.mpr ⟨fun e he => ?_, ih hrest⟩
        rcases mem_keys_insert he with he | he
        · exact he ▸ lt_of_not hk hlt
        · exact hhead e he

theorem Ordered.insertAll {d : Dict α} (h : Ordered d) (es : List (String × α)) :
    Ordered (insertAll d es) := by
  induction es generalizing d with
  | nil => exact h
  | cons e es ih => exact ih (h.insert e.1 e.2)

theorem ordered_ofList (es : List (String × α)) : Ordered (ofList es) :=
  ordered_nil.insertAll es

theorem get?_eq_none_of_lt {d : Dict α} {key : String} (h : ∀ e ∈ d, key < e.1) :
    get? d key = none := by
  induction d with
  | nil => rfl
  | cons x rest ih =>
    obtain ⟨k, v⟩ := x
    have hk : k ≠ key := fun he => String.lt_irrefl key (he ▸ h (k, v) List.mem_cons_self)
    rw [get?, if_neg hk]
    exact ih fun e he => h e (List.mem_cons_of_mem _ he)

theorem Ordered.not_lt_head {k l : String} {v w : α} {rest rest' : Dict α}
    (h' : Ordered ((l, w) :: rest'))
    (hget : ∀ key, get? ((k, v) :: rest) key = get? ((l, w) :: rest') key) : ¬ k < l := by
  intro hlt
  obtain ⟨hhead', -⟩ := List.pairwise_cons.mp h'
  have hnone : get? ((l, w) :: rest') k = none := by
    apply get?_eq_none_of_lt
    intro e he
    rcases List.mem_cons.mp he with he | he
    · exact he ▸ hlt
    · exact String.lt_trans hlt (hhead' e he)
  have hsome := hget k
  rw [hnone, get?, if_pos rfl] at hsome
  cases hsome

theorem Ordered.ext {d d' : Dict α} (h : Ordered d) (h' : Ordered d')
    (hget : ∀ key, get? d key = get? d' key) : d = d' := by
  induction d generalizing d' with
  | nil =>
    cases d' with
    | nil => rfl
    | cons x rest =>
      have := hget x.1
      simp [get?] at this
  | cons x rest ih =>
    obtain ⟨k, v⟩ := x
    obtain ⟨hhead, hrest⟩ := List.pairwise_cons.mp h
    cases d' with
    | nil =>
      have := hget k
      simp [get?] at this
    | cons y rest' =>
      obtain ⟨l, w⟩ := y
      obtain ⟨hhead', hrest'⟩ := List.pairwise_cons.mp h'
      have hkl : k = l := by
        have hle := h'.not_lt_head hget
        have hge := h.not_lt_head fun key => (hget key).symm
        by_cases hk : k = l
        · exact hk
        · exact absurd (lt_of_not (Ne.symm hk) hle) hge
      subst hkl
      have hvw : v = w := by
        have := hget k
        simpa [get?] using this
      subst hvw
      have htail : rest = rest' := by
        refine ih hrest hrest' fun key => ?_
        by_cases hkey : k = key
        · subst hkey
          rw [get?_eq_none_of_lt hhead, get?_eq_none_of_lt hhead']
        · have := hget key
          rwa [get?, get?, if_neg hkey, if_neg hkey] at this
      rw [htail]

theorem mem_keys_iff {d : Dict α} {key : String} :
    key ∈ keys d ↔ ∃ value, get? d key = some value := by
  refine ⟨fun h => ?_, fun ⟨_, h⟩ => mem_keys_of_get? h⟩
  induction d with
  | nil => cases h
  | cons e rest ih =>
    rw [get?]
    split
    · exact ⟨e.2, rfl⟩
    · next hne => exact ih (List.mem_of_ne_of_mem (Ne.symm hne) h)

theorem mem_keys_insertAll {d : Dict α} {es : List (String × α)} {key : String} :
    key ∈ keys (insertAll d es) ↔ key ∈ keys es ∨ key ∈ keys d := by
  induction es generalizing d with
  | nil => exact (or_iff_right List.not_mem_nil).symm
  | cons e rest ih =>
    have hinsert : key ∈ keys (insert d e.1 e.2) ↔ key = e.1 ∨ key ∈ keys d := by
      rw [mem_keys_iff, mem_keys_iff, get?_insert]
      by_cases he : e.1 = key
      · simp [he]
      · simp [he, Ne.symm he]
    rw [insertAll_cons, ih, hinsert, or_left_comm, ← or_assoc]
    exact or_congr_left List.mem_cons.symm

theorem mem_keys_ofList {es : List (String × α)} {key : String} :
    key ∈ keys (ofList es) ↔ key ∈ keys es := by
  rw [ofList, mem_keys_insertAll]
  exact or_iff_left List.not_mem_nil

theorem Ordered.nodup_keys {d : Dict α} (h : Ordered d) : (keys d).Nodup := by
  refine List.Pairwise.map _ (fun a b hab he => ?_) h
  exact String.lt_irrefl b.1 (he ▸ hab)

theorem get?_insertAll_of_once {es : List (String × α)} {key : String}
    (h : es.Pairwise fun a b => b.1 = key → a.1 ≠ key) (d : Dict α) :
    get? (insertAll d es) key = (get? es key).or (get? d key) := by
  induction es generalizing d with
  | nil => rfl
  | cons e rest ih =>
    obtain ⟨hfirst, hrest⟩ := List.pairwise_cons.mp h
    rw [insertAll_cons, ih hrest, get?_insert, get?]
    by_cases hk : e.1 = key
    · have hnew : key ∉ keys rest := by
        intro hmem
        obtain ⟨b, hb, hkey⟩ := List.mem_map.mp hmem
        exact hfirst b hb hkey hk
      rw [if_pos hk, if_pos hk, get?_eq_none_of_notMem hnew]
      rfl
    · rw [if_neg hk, if_neg hk]

theorem get?_ofList_of_once {es : List (String × α)} {key : String}
    (h : es.Pairwise fun a b => b.1 = key → a.1 ≠ key) : get? (ofList es) key = get? es key := by
  rw [ofList, get?_insertAll_of_once h, get?_nil, Option.or_none]

theorem get?_insertAll {es : List (String × α)} (h : (keys es).Nodup) (d : Dict α) (key : String) :
    get? (insertAll d es) key = (get? es key).or (get? d key) := by
  refine get?_insertAll_of_once ((List.pairwise_map.mp h).imp ?_) d
  exact fun hne hb ha => hne (ha.trans hb.symm)

theorem get?_ofList {es : List (String × α)} (h : (keys es).Nodup) (key : String) :
    get? (ofList es) key = get? es key := by
  rw [ofList, get?_insertAll h, get?_nil, Option.or_none]

theorem Ordered.ofList_eq {d : Dict α} (h : Ordered d) : ofList d = d :=
  (ordered_ofList d).ext h (get?_ofList h.nodup_keys)

theorem insert_map (d : Dict α) (f : α → β) (key : String) (value : α) :
    insert (d.map fun e => (e.1, f e.2)) key (f value) =
      (insert d key value).map fun e => (e.1, f e.2) := by
  induction d with
  | nil => rfl
  | cons e rest ih =>
    simp only [List.map_cons, insert]
    split
    · rfl
    · split
      · rfl
      · rw [ih]
        rfl

theorem insertAll_map (d : Dict α) (es : List (String × α)) (f : α → β) :
    insertAll (d.map fun e => (e.1, f e.2)) (es.map fun e => (e.1, f e.2)) =
      (insertAll d es).map fun e => (e.1, f e.2) := by
  induction es generalizing d with
  | nil => rfl
  | cons e rest ih => rw [List.map_cons, insertAll_cons, insertAll_cons, insert_map, ih]

theorem ofList_map (es : List (String × α)) (f : α → β) :
    ofList (es.map fun e => (e.1, f e.2)) = (ofList es).map fun e => (e.1, f e.2) :=
  insertAll_map [] es f

/-! ### Entries that stay -/

theorem sublist_erase (d : Dict α) (key : String) : (erase d key).Sublist d := by
  induction d with
  | nil => exact .slnil
  | cons x rest ih =>
    simp only [erase]
    split
    · exact ih.cons x
    · exact ih.cons_cons x

theorem erase_of_notMem {d : Dict α} {key : String} (h : key ∉ keys d) : erase d key = d := by
  induction d with
  | nil => rfl
  | cons x rest ih =>
    obtain ⟨hne, hrest⟩ := not_or.mp (mt List.mem_cons.mpr h)
    rw [erase, if_neg (Ne.symm hne), ih hrest]

theorem Ordered.erase {d : Dict α} (h : Ordered d) (key : String) : Ordered (erase d key) :=
  List.Pairwise.sublist (sublist_erase d key) h

theorem mem_of_get? {d : Dict α} {key : String} {value : α} (h : get? d key = some value) :
    (key, value) ∈ d := by
  induction d with
  | nil => simp at h
  | cons x rest ih =>
    obtain ⟨k, v⟩ := x
    simp only [get?] at h
    split at h
    · next hk =>
      cases h
      exact hk ▸ List.mem_cons_self
    · exact List.mem_cons_of_mem _ (ih h)

theorem get?_of_mem {d : Dict α} (h : (keys d).Nodup) {e : String × α} (he : e ∈ d) :
    get? d e.1 = some e.2 := by
  induction d with
  | nil => cases he
  | cons x rest ih =>
    obtain ⟨k, v⟩ := x
    obtain ⟨hnew, hrest⟩ := List.nodup_cons.mp h
    rw [get?]
    rcases List.mem_cons.mp he with rfl | he
    · exact if_pos rfl
    · have hkey : e.1 ∈ keys rest := List.mem_map_of_mem he
      have hne : k ≠ e.1 := by
        intro hk
        exact hnew (hk ▸ hkey)
      rw [if_neg hne]
      exact ih hrest he

end TokenKeeper.Dict
