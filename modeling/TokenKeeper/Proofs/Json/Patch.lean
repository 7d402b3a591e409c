import TokenKeeper.Json.Patch
import TokenKeeper.Proofs.Json.Printed

/-!
# Patched trees

A patch puts together parts of what has been read, so what it makes can be printed and read again.
It adds a member only where no other one has its label. So a member comes after another one of the
same label only if a NUL cuts its own name short.
-/
namespace TokenKeeper.Json.Spelling

variable {ms changes : List (List Glyph × Spelling)} {name : List Glyph}

theorem patchedMembers_null (ms : List (List Glyph × Spelling)) (name : List Glyph)
    (rest : List (List Glyph × Spelling)) :
    patchedMembers ms ((name, .null) :: rest) = patchedMembers (removeMember name ms) rest := by
  rw [patchedMembers]

theorem patchedMembers_set {v : Spelling} (h : v ≠ .null) (ms : List (List Glyph × Spelling))
    (name : List Glyph) (rest : List (List Glyph × Spelling)) :
    patchedMembers ms ((name, v) :: rest) =
      patchedMembers (alterMember name (fun old => patched old v) ms) rest := by
  rw [patchedMembers]
  exact h

/-! ### Printing -/

theorem reads_memberTokens_iff : (∀ t ∈ memberTokens ms, t.Reads) ↔
    ∀ m ∈ ms, (Token.str m.1).Reads ∧ m.2.Printed := by
  induction ms with
  | nil => simp [memberTokens, reads_closeMembers]
  | cons m ms ih =>
    simp only [memberTokens, List.cons_append, List.forall_mem_cons, List.forall_mem_append, ih,
      reads_comma, reads_colon, true_and, Printed, and_assoc]

theorem printed_obj_iff : (obj ms).Printed ↔ ∀ m ∈ ms, (Token.str m.1).Reads ∧ m.2.Printed := by
  rw [← reads_memberTokens_iff]
  cases ms with
  | nil => simp [Printed, tokens, memberTokens, reads_openMembers]
  | cons m ms =>
    simp only [Printed, tokens, memberTokens, List.cons_append, List.forall_mem_cons,
      reads_openMembers, reads_comma, true_and]

theorem printed_null : Spelling.null.Printed := reads_cons reads_null reads_nil

theorem sublist_removeMember (name : List Glyph) (ms : List (List Glyph × Spelling)) :
    (removeMember name ms).Sublist ms := by
  induction ms with
  | nil => exact .slnil
  | cons m ms ih =>
    rw [removeMember]
    split
    · exact List.sublist_cons_self m ms
    · exact ih.cons_cons m

theorem printed_removeMember (h : (obj ms).Printed) (name : List Glyph) :
    (obj (removeMember name ms)).Printed := by
  rw [printed_obj_iff] at h ⊢
  exact fun m hm => h m ((sublist_removeMember name ms).subset hm)

theorem printed_alterMember (h : (obj ms).Printed) (hname : (Token.str name).Reads)
    {change : Spelling → Spelling} (hchange : ∀ old, old.Printed → (change old).Printed) :
    (obj (alterMember name change ms)).Printed := by
  rw [printed_obj_iff] at h ⊢
  induction ms with
  | nil => exact List.forall_mem_singleton.mpr ⟨hname, hchange .null printed_null⟩
  | cons m ms ih =>
    obtain ⟨hm, hms⟩ := List.forall_mem_cons.mp h
    rw [alterMember]
    split
    · exact List.forall_mem_cons.mpr ⟨⟨hm.1, hchange _ hm.2⟩, hms⟩
    · exact List.forall_mem_cons.mpr ⟨hm, ih hms⟩

theorem printed_members? {target : Spelling} (h : target.Printed) :
    (obj (target.members?.getD [])).Printed := by
  cases target with
  | obj ms => exact h
  | _ => exact printed_obj_iff.mpr (List.forall_mem_nil _)

mutual

theorem printed_patched : ∀ (patch : Spelling) {target : Spelling}, target.Printed →
    patch.Printed → (patched target patch).Printed
  | .null, _, _, hp => hp
  | .bool _, _, _, hp => hp
  | .num _, _, _, hp => hp
  | .str _, _, _, hp => hp
  | .arr _, _, _, hp => hp
  | .obj changes, _, ht, hp => printed_patchedMembers changes (printed_members? ht) hp

theorem printed_patchedMembers : ∀ (changes : List (List Glyph × Spelling))
    {ms : List (List Glyph × Spelling)}, (obj ms).Printed → (obj changes).Printed →
      (obj (patchedMembers ms changes)).Printed
  | [], _, h, _ => h
  | (name, v) :: rest, ms, h, hp => by
    obtain ⟨⟨hname, hv⟩, hrest⟩ := List.forall_mem_cons.mp (printed_obj_iff.mp hp)
    by_cases hnull : v = .null
    · subst hnull
      rw [patchedMembers_null]
      exact printed_patchedMembers rest (printed_removeMember h name) (printed_obj_iff.mpr hrest)
    · rw [patchedMembers_set hnull]
      exact printed_patchedMembers rest
        (printed_alterMember h hname fun old hold => printed_patched v hold hv)
        (printed_obj_iff.mpr hrest)

end

/-! ### Names -/

/-- A member is the first one of its label, unless a NUL cuts its name short. -/
def UniqueLabels (ms : List (List Glyph × Spelling)) : Prop :=
  ms.Pairwise fun a b => 0 ∉ label b.1 → sameLabel a.1 b.1 = false

theorem UniqueLabels.removeMember (h : UniqueLabels ms) (name : List Glyph) :
    UniqueLabels (removeMember name ms) :=
  List.Pairwise.sublist (sublist_removeMember name ms) h

theorem names_alterMember (name : List Glyph) (change : Spelling → Spelling)
    (ms : List (List Glyph × Spelling)) :
    (alterMember name change ms).map Prod.fst = ms.map Prod.fst ∨
      (alterMember name change ms).map Prod.fst = ms.map Prod.fst ++ [name] ∧
        ∀ m ∈ ms, sameLabel m.1 name = false := by
  induction ms with
  | nil => exact .inr ⟨rfl, List.forall_mem_nil _⟩
  | cons m ms ih =>
    rw [alterMember]
    split
    · exact .inl rfl
    · next hlabel =>
      rcases ih with h | ⟨h, hms⟩
      · exact .inl (congrArg (m.1 :: ·) h)
      · exact .inr ⟨congrArg (m.1 :: ·) h,
          List.forall_mem_cons.mpr ⟨Bool.eq_false_iff.mpr hlabel, hms⟩⟩

theorem uniqueLabels_iff : UniqueLabels ms ↔
    (ms.map Prod.fst).Pairwise fun a b => 0 ∉ label b → sameLabel a b = false := by
  rw [UniqueLabels, List.pairwise_map]

theorem UniqueLabels.alterMember (h : UniqueLabels ms) (name : List Glyph)
    (change : Spelling → Spelling) : UniqueLabels (alterMember name change ms) := by
  rw [uniqueLabels_iff] at h ⊢
  rcases names_alterMember name change ms with hnames | ⟨hnames, hnew⟩
  · rwa [hnames]
  · rw [hnames]
    refine List.pairwise_append.mpr ⟨h, List.pairwise_singleton _ _, fun k hk l hl _ => ?_⟩
    obtain ⟨m, hm, rfl⟩ := List.mem_map.mp hk
    rw [List.mem_singleton.mp hl]
    exact hnew m hm

theorem UniqueLabels.patchedMembers (h : UniqueLabels ms) (changes : List (List Glyph × Spelling)) :
    UniqueLabels (patchedMembers ms changes) := by
  induction changes generalizing ms with
  | nil => exact h
  | cons change rest ih =>
    obtain ⟨name, v⟩ := change
    by_cases hnull : v = .null
    · subst hnull
      rw [patchedMembers_null]
      exact ih (h.removeMember name)
    · rw [patchedMembers_set hnull]
      exact ih (h.alterMember name _)

end TokenKeeper.Json.Spelling
