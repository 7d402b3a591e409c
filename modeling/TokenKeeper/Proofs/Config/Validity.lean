import TokenKeeper.Proofs.Config.Loading

/-!
# Valid settings

What the settings of a loaded configuration have been checked for, all of it at once.
-/
namespace TokenKeeper.Config

variable {env : Environment} {disk : Disk} {path : String} {c : Config}

theorem check_eq_none_iff {p : Prop} [Decidable p] {fault : ConfigFailure}
    {rest : Option ConfigFailure} :
    (if p then some fault else rest) = none ↔ ¬ p ∧ rest = none := by
  by_cases h : p
  · rw [if_pos h]
    exact iff_of_false nofun fun hpassed => hpassed.1 h
  · rw [if_neg h]
    exact (and_iff_right h).symm

theorem clientFault?_eq_none_iff {s : ClientConfig} : clientFault? s = none ↔
    Text.isBlankText s.clientId = false ∧ s.defaultCallerKey ≠ "" ∧
      isEndpoint s.tokenEndpoint = true ∧ isBareHost s.apiHost = true ∧ s.timeout ≠ 0 := by
  simp only [clientFault?, check_eq_none_iff, Bool.not_eq_true, Bool.not_eq_eq_eq_not,
    Bool.not_true, Bool.not_eq_false, and_true, ne_eq]

theorem storeFault?_eq_none_iff {s : StoreConfig} : storeFault? s = none ↔
    ¬ (s.backend = .memory ∧ s.encrypted = true) ∧ (s.backend ≠ .memory → s.path ≠ none) ∧
      s.collection ≠ "" := by
  simp only [storeFault?, check_eq_none_iff, Option.isNone_iff_eq_none, not_and, and_true, ne_eq]

theorem fault?_eq_none_iff : c.fault? = none ↔
    clientFault? c.client = none ∧ storeFault? c.store = none := by
  unfold fault?
  cases clientFault? c.client <;> simp

theorem isBareHost_iff {text : String} :
    isBareHost text = true ↔ text ≠ "" ∧ '/' ∉ text.toList := by
  simp [isBareHost]

theorem fault?_of_load (h : load env disk path = .ok c) : c.fault? = none := by
  obtain ⟨c', secret, key, hread, rfl, -⟩ := exists_read_of_load h
  obtain ⟨text, -, -, hvalid⟩ := read_eq_ok_iff.mp hread
  exact hvalid

end TokenKeeper.Config
