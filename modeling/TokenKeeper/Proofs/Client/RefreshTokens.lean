import TokenKeeper.Proofs.Client.RunState
import TokenKeeper.Proofs.Client.BoundedSteps

/-!
# Refresh tokens are redeemed once

An endpoint that rotates refresh tokens grants each of them once. A client that refreshes one at a
time then never asks again with a refresh token that it has redeemed, once the new pair is saved:
the old one is neither in the store nor with a task that is under the lock, and no pair to come has
it. A caller that had to wait, and finds a pair that is not due, gives it out and asks for none.
-/
namespace TokenKeeper

variable {client : Client} {b : StoreKind}

/-! ### Where refresh tokens are -/

theorem stage_cases {stage : Nat → Stage} {i j : Nat} {new st : Stage}
    (h : Function.update stage i new j = st) : (j = i ∧ new = st) ∨ (j ≠ i ∧ stage j = st) := by
  by_cases hj : j = i
  · subst hj
    rw [Function.update_self] at h
    exact .inl ⟨rfl, h⟩
  · rw [Function.update_of_ne hj] at h
    exact .inr ⟨hj, h⟩

theorem sees_cases {stage : Nat → Stage} {i j : Nat} {new : Stage} {e : StoredEntry}
    (h : (Function.update stage i new j).sees = some e) :
    (j = i ∧ new.sees = some e) ∨ (j ≠ i ∧ (stage j).sees = some e) := by
  by_cases hj : j = i
  · subst hj
    rw [Function.update_self] at h
    exact .inl ⟨rfl, h⟩
  · rw [Function.update_of_ne hj] at h
    exact .inr ⟨hj, h⟩

theorem stage_of_stop {stage : Nat → Stage} {i j : Nat} {st : Stage}
    (h : Function.update stage i .gone j = st) (hst : st ≠ .gone) : stage j = st := by
  rcases stage_cases h with ⟨-, hgone⟩ | ⟨-, hj⟩
  · exact absurd hgone.symm hst
  · exact hj

theorem sees_of_stop {stage : Nat → Stage} {i j : Nat} {e : StoredEntry}
    (h : (Function.update stage i .gone j).sees = some e) : (stage j).sees = some e := by
  rcases sees_cases h with ⟨-, hgone⟩ | ⟨-, hj⟩
  · cases hgone
  · exact hj

namespace RunState

variable {calls : List ClientTask} {l l' : RunState} {event : Option Event}

structure NeverGranted (l : RunState) (r : String) : Prop where
  grants : r ∉ l.grants
  pending : ∀ i pair, l.stage i = .granted pair → pair.refreshToken ≠ r

/-- The refresh tokens that are granted are fresh: no two pairs have the same, and those in the
store and with the tasks are others. -/
structure Fresh (l : RunState) : Prop where
  nodup : l.grants.Nodup
  pending : ∀ i pair, l.stage i = .granted pair → pair.refreshToken ∉ l.grants
  apart : ∀ i j pair pair', i ≠ j → l.stage i = .granted pair → l.stage j = .granted pair' →
    pair.refreshToken ≠ pair'.refreshToken
  stored : ∀ key e, Dict.get? l.entries key = some e → l.NeverGranted e.tokens.refreshToken
  hand : ∀ i e, (l.stage i).sees = some e → l.NeverGranted e.tokens.refreshToken

theorem Fresh.start {m : Dict StoredEntry} {grants : List String} (hgrants : grants.Nodup)
    (hstored : ∀ key e, Dict.get? m key = some e → e.tokens.refreshToken ∉ grants) :
    Fresh ⟨m, grants, fun _ => .outside, []⟩ where
  nodup := hgrants
  pending _ _ h := nomatch h
  apart _ _ _ _ _ h := nomatch h
  stored key e he := ⟨hstored key e he, fun _ _ h => nomatch h⟩
  hand _ _ h := nomatch h

theorem NeverGranted.moveCases {r : String} (h : l.NeverGranted r)
    (hcases : l.MoveCases client b calls event l') : l'.NeverGranted r := by
  cases hcases with
  | idle => exact h
  | @step i op answer m' grants' st' heffect =>
    refine ⟨fun hr => h.grants (heffect.sublist.subset hr), fun j pair hpair => ?_⟩
    rcases stage_cases hpair with ⟨rfl, hst'⟩ | ⟨-, hj⟩
    · rcases heffect.granted hst' with ⟨hst, -⟩ | ⟨-, hgrants⟩
      · exact h.pending j pair hst
      · rintro rfl
        exact h.grants (hgrants ▸ List.mem_cons_self)
    · exact h.pending j pair hj
  | stop i =>
    exact ⟨h.grants, fun j pair hpair => h.pending j pair (stage_of_stop hpair nofun)⟩

section

variable {i : Nat} {op : Op} {answer : op.Answer} {m' : Dict StoredEntry} {grants' : List String}
  {st' : Stage}

theorem Fresh.apart_of_effect (h : l.Fresh)
    (heffect : Effect client b (callAt calls i) l.entries l.grants (l.stage i) op answer m'
      grants' st') {j : Nat} {pair pair' : Tokens} (hst' : st' = .granted pair) (hj : j ≠ i)
    (hpair' : l.stage j = .granted pair') : pair.refreshToken ≠ pair'.refreshToken := by
  rcases heffect.granted hst' with ⟨hst, -⟩ | ⟨-, hgrants⟩
  · exact h.apart i j pair pair' (fun he => hj he.symm) hst hpair'
  · intro he
    refine h.pending j pair' hpair' ?_
    rw [hgrants, ← he]
    exact List.mem_cons_self

theorem Fresh.step (h : l.Fresh)
    (heffect : Effect client b (callAt calls i) l.entries l.grants (l.stage i) op answer m'
      grants' st') :
    Fresh ⟨m', grants', Function.update l.stage i st', l.past ++ [⟨i, op, answer⟩]⟩ := by
  have hsub := heffect.sublist
  have hnever : ∀ r, l.NeverGranted r →
      NeverGranted ⟨m', grants', Function.update l.stage i st', l.past ++ [⟨i, op, answer⟩]⟩ r :=
    fun r hr => hr.moveCases (.step heffect)
  refine ⟨h.nodup.sublist hsub, ?pending, ?apart, ?stored, ?hand⟩
  case pending =>
    intro j pair hpair
    rcases stage_cases hpair with ⟨rfl, hst'⟩ | ⟨-, hj⟩
    · rcases heffect.granted hst' with ⟨hst, -⟩ | ⟨-, hgrants⟩
      · exact fun hmem => h.pending j pair hst (hsub.subset hmem)
      · have hnodup := h.nodup
        rw [hgrants] at hnodup
        exact (List.nodup_cons.mp hnodup).1
    · exact fun hmem => h.pending j pair hj (hsub.subset hmem)
  case apart =>
    intro j k pair pair' hjk hpair hpair'
    rcases stage_cases hpair with ⟨rfl, hst'⟩ | ⟨hji, hj⟩
    · rcases stage_cases hpair' with ⟨rfl, -⟩ | ⟨hki, hk⟩
      · exact absurd rfl hjk
      · exact h.apart_of_effect heffect hst' hki hk
    · rcases stage_cases hpair' with ⟨rfl, hst'⟩ | ⟨-, hk⟩
      · exact (h.apart_of_effect heffect hst' hji hj).symm
      · exact h.apart j k pair pair' hjk hj hk
  case stored =>
    intro key e he
    rcases heffect.stored he with hold | ⟨-, hst, rfl, -⟩
    · exact hnever _ (h.stored key e hold)
    · refine ⟨fun hmem => h.pending i e.tokens hst (hsub.subset hmem), fun j pair hpair => ?_⟩
      rcases stage_cases hpair with ⟨-, hst'⟩ | ⟨hj, hpair⟩
      · cases hst'
      · exact h.apart j i pair e.tokens hj hpair hst
  case hand =>
    intro j e he
    rcases sees_cases he with ⟨rfl, hst'⟩ | ⟨-, hj⟩
    · rcases heffect.hand hst' with hst | ⟨stored, hstored, rfl⟩
      · exact hnever _ (h.hand j e hst)
      · rw [(b.shown_looksLike _ stored).refreshToken]
        exact hnever _ (h.stored _ stored hstored)
    · exact hnever _ (h.hand j e hj)

end

theorem Fresh.moveCases (h : l.Fresh) (hcases : l.MoveCases client b calls event l') :
    l'.Fresh := by
  have hnever : ∀ r, l.NeverGranted r → l'.NeverGranted r := fun r hr => hr.moveCases hcases
  cases hcases with
  | idle => exact h
  | step heffect => exact h.step heffect
  | stop i =>
    refine ⟨h.nodup, fun j pair hpair => h.pending j pair (stage_of_stop hpair nofun),
      fun j k pair pair' hjk hpair hpair' => ?_, fun key e he => hnever _ (h.stored key e he),
      fun j e he => hnever _ (h.hand j e (sees_of_stop he))⟩
    exact h.apart j k pair pair' hjk (stage_of_stop hpair nofun) (stage_of_stop hpair' nofun)

end RunState

/-! ### From a grant to its save -/

def Event.Asks (calls : List ClientTask) (key : String) (e : Event) : Prop :=
  calls[e.task]? = some (.accessToken key) ∧ ∃ form, e.op = .post form

def Event.Redeems (calls : List ClientTask) (key r : String) (e : Event) : Prop :=
  calls[e.task]? = some (.accessToken key) ∧
    ∃ credentials, e.op = .post (refreshForm r credentials)

theorem refreshForm_inj {r r' : String} {c c' : Credentials}
    (h : refreshForm r c = refreshForm r' c') : r = r' := by
  simp only [refreshForm, List.cons.injEq, Prod.mk.injEq, true_and] at h
  exact h.1

section

variable {calls : List ClientTask} {l l' : RunState} {event : Option Event} {key r : String}
  {i : Nat}

theorem Effect.asks {op : Op} {answer : op.Answer} {m' : Dict StoredEntry} {grants' : List String}
    {st' : Stage} (h : Effect client b (callAt calls i) l.entries l.grants (l.stage i) op answer
      m' grants' st') (hasks : Event.Asks calls key ⟨i, op, answer⟩) :
    callAt calls i = .accessToken key ∧ ∃ e now credentials,
      l.stage i = .reread (some e) (some now) ∧ client.needsRefresh now e.expiresAt = true ∧
      op = .post (refreshForm e.tokens.refreshToken credentials) := by
  obtain ⟨hi, form, hform⟩ := hasks
  have hkey := callAt_eq hi
  refine ⟨hkey, ?_⟩
  cases hform
  rcases h.ask_cases.1.post_cases with ⟨-, e, now, credentials, hst, hdue, rfl⟩ | ⟨hv, -⟩
  · exact ⟨e, now, credentials, hst, hdue, rfl⟩
  · exact absurd hkey (hv key)

structure Redeeming (calls : List ClientTask) (key r : String) (i : Nat) (pair : Tokens)
    (l : RunState) : Prop where
  neverGranted : l.NeverGranted r
  stage : (l.stage i = .granted pair ∧ ∀ e ∈ l.past, ¬ e.Asks calls key) ∨
    l.stage i = .finished ∨ l.stage i = .gone

theorem Redeeming.moveCases {pair : Tokens} (hkey : callAt calls i = .accessToken key)
    (hexclusive : l.Exclusive calls) (h : Redeeming calls key r i pair l)
    (hcases : l.MoveCases client b calls event l') : Redeeming calls key r i pair l' := by
  refine ⟨h.neverGranted.moveCases hcases, ?_⟩
  cases hcases with
  | idle => exact h.stage
  | @step j op answer m' grants' st' heffect =>
    dsimp only
    rcases h.stage with ⟨hgranted, hpast⟩ | hdone
    · have hunder : (l.stage i).IsUnder := hgranted ▸ .granted pair
      -- Only under the lock could another caller ask.
      have hlast : ¬ Event.Asks calls key ⟨j, op, answer⟩ := by
        intro hasks
        obtain ⟨hj, e, now, -, hst, -⟩ := heffect.asks hasks
        by_cases hij : i = j
        · rw [← hij, hgranted] at hst
          cases hst
        · exact hexclusive i j key hij hkey hj hunder (hst ▸ .reread _ _)
      have hall := List.forall_mem_append.mpr ⟨hpast, List.forall_mem_singleton.mpr hlast⟩
      by_cases hij : i = j
      · subst hij
        rw [Function.update_self]
        rw [hgranted] at heffect
        rcases heffect.of_granted with hst' | hst'
        · exact .inl ⟨hst', hall⟩
        · exact .inr (.inl hst')
      · rw [Function.update_of_ne hij]
        exact .inl ⟨hgranted, hall⟩
    · refine .inr ?_
      by_cases hij : i = j
      · subst hij
        rw [Function.update_self, (heffect.of_done hdone).1]
        exact hdone
      · rw [Function.update_of_ne hij]
        exact hdone
  | stop j =>
    dsimp only
    by_cases hij : i = j
    · subst hij
      rw [Function.update_self]
      exact .inr (.inr rfl)
    · rw [Function.update_of_ne hij]
      exact h.stage

theorem Redeeming.start {pair : Tokens} {credentials : Credentials} {x : Exchange}
    (h : l.Fresh) (hi : calls[i]? = some (.accessToken key))
    (hcases : l.MoveCases client b calls (some ⟨i, .post (refreshForm r credentials), x⟩) l')
    (hx : x.pair? = some pair) : Redeeming calls key r i pair { l' with past := [] } := by
  have hnever : l.NeverGranted r → l'.NeverGranted r := fun hr => hr.moveCases hcases
  cases hcases with
  | step heffect =>
    obtain ⟨-, e, now, credentials', hst, -, hop⟩ := heffect.asks ⟨hi, _, rfl⟩
    have hr := refreshForm_inj (Op.post.inj hop)
    obtain ⟨hgrants, hpending⟩ := hnever (hr ▸ h.hand i e (hst ▸ rfl))
    refine ⟨⟨hgrants, hpending⟩, .inl ⟨?_, fun _ he => nomatch he⟩⟩
    dsimp only
    rw [Function.update_self, heffect.ask_cases.2.2.1, Stage.ask_some hx]

/-! ### After the save -/

/-- A refresh token that was redeemed, and whose successor is saved, is nowhere any more. -/
structure Absent (calls : List ClientTask) (key r : String) (l : RunState) : Prop where
  neverGranted : l.NeverGranted r
  stored : ∀ e, Dict.get? l.entries key = some e → e.tokens.refreshToken ≠ r
  hand : ∀ j e, callAt calls j = .accessToken key → (l.stage j).sees = some e →
    e.tokens.refreshToken ≠ r
  past : ∀ e ∈ l.past, ¬ e.Redeems calls key r

theorem Absent.moveCases (h : Absent calls key r l) (hcases : l.MoveCases client b calls event l') :
    Absent calls key r l' := by
  have hnever := h.neverGranted.moveCases hcases
  cases hcases with
  | idle => exact h
  | @step i op answer m' grants' st' heffect =>
    refine ⟨hnever, ?stored, ?hand, ?past⟩
    case stored =>
      intro e he
      rcases heffect.stored he with hold | ⟨-, hst, -⟩
      · exact h.stored e hold
      · exact h.neverGranted.pending i e.tokens hst
    case hand =>
      intro j e hj he
      rcases sees_cases he with ⟨rfl, hst'⟩ | ⟨-, hst⟩
      · rcases heffect.hand hst' with hst | ⟨stored, hstored, rfl⟩
        · exact h.hand j e hj hst
        · rw [(b.shown_looksLike _ stored).refreshToken]
          rw [hj] at hstored
          exact h.stored stored hstored
      · exact h.hand j e hj hst
    case past =>
      refine List.forall_mem_append.mpr ⟨h.past, List.forall_mem_singleton.mpr ?_⟩
      rintro ⟨hi, credentials, hop⟩
      obtain ⟨hkey, e, now, credentials', hst, -, hop'⟩ := heffect.asks ⟨hi, _, hop⟩
      cases hop
      have hform := Op.post.inj hop'
      exact h.hand i e hkey (hst ▸ rfl) (refreshForm_inj hform).symm
  | stop i =>
    exact ⟨hnever, h.stored, fun j e hj he => h.hand j e hj (sees_of_stop he), h.past⟩

/-- While the clock is read outside the refresh window of an expiry, and nobody logs in. -/
def Event.KeepsPair (client : Client) (calls : List ClientTask) (key : String) (expiresAt : Instant)
    (e : Event) : Prop :=
  (calls[e.task]? = some (.accessToken key) → ∀ now, e = ⟨e.task, .now, now⟩ →
    client.needsRefresh now expiresAt = false) ∧
  (calls[e.task]? ≠ some (.accessToken key) → e.op.writesTo key = false)

structure PairKept (client : Client) (calls : List ClientTask) (key : String) (expiresAt : Instant)
    (l : RunState) : Prop where
  stored : ∀ e, Dict.get? l.entries key = some e → e.expiresAt = expiresAt
  pending : ∀ j pair, callAt calls j = .accessToken key → l.stage j ≠ .granted pair
  hand : ∀ j e, callAt calls j = .accessToken key → (l.stage j).sees = some e →
    e.expiresAt = expiresAt
  judged : ∀ j e t, callAt calls j = .accessToken key →
    l.stage j = .reread (some e) (some t) → client.needsRefresh t expiresAt = false
  past : ∀ e ∈ l.past, ¬ e.Asks calls key

theorem PairKept.step {expiresAt : Instant} (h : PairKept client calls key expiresAt l) {op : Op}
    {answer : op.Answer} {m' : Dict StoredEntry} {grants' : List String} {st' : Stage}
    (heffect : Effect client b (callAt calls i) l.entries l.grants (l.stage i) op answer
      m' grants' st') (hkeeps : Event.KeepsPair client calls key expiresAt ⟨i, op, answer⟩) :
    PairKept client calls key expiresAt ⟨m', grants', Function.update l.stage i st',
      l.past ++ [⟨i, op, answer⟩]⟩ := by
  have hlast : ¬ Event.Asks calls key ⟨i, op, answer⟩ := by
    intro hasks
    obtain ⟨hi, e, now, -, hst, hdue, -⟩ := heffect.asks hasks
    rw [h.hand i e hi (hst ▸ rfl), h.judged i e now hi hst] at hdue
    cases hdue
  refine ⟨?stored, ?pending, ?hand, ?judged,
    List.forall_mem_append.mpr ⟨h.past, List.forall_mem_singleton.mpr hlast⟩⟩
  case stored =>
    intro e he
    rcases heffect.stored he with hold | ⟨hkey, hst, -, hwrites⟩
    · exact h.stored e hold
    · by_cases hi : callAt calls i = .accessToken key
      · exact absurd hst (h.pending i e.tokens hi)
      · have hquiet := hkeeps.2 fun he => hi (callAt_eq he)
        rw [hwrites] at hquiet
        cases hquiet
  case pending =>
    intro j pair hj hpair
    rcases stage_cases hpair with ⟨rfl, hst'⟩ | ⟨-, hst⟩
    · rcases heffect.granted hst' with ⟨hst, -⟩ | ⟨⟨form, rfl⟩, -⟩
      · exact h.pending j pair hj hst
      · exact hlast ⟨callAt_accessToken.mp hj, form, rfl⟩
    · exact h.pending j pair hj hst
  case hand =>
    intro j e hj he
    rcases sees_cases he with ⟨rfl, hst'⟩ | ⟨-, hst⟩
    · rcases heffect.hand hst' with hst | ⟨stored, hstored, rfl⟩
      · exact h.hand j e hj hst
      · rw [hj] at hstored
        rw [(b.shown_looksLike _ stored).expiresAt]
        exact h.stored stored hstored
    · exact h.hand j e hj hst
  case judged =>
    intro j e t hj he
    rcases stage_cases he with ⟨rfl, hst'⟩ | ⟨-, hst⟩
    · rcases heffect.judged hst' with hst | ⟨-, hevent⟩
      · exact h.judged j e t hj hst
      · exact hkeeps.1 (callAt_accessToken.mp hj) t (hevent j)
    · exact h.judged j e t hj hst

theorem PairKept.moveCases {expiresAt : Instant}
    (h : (∀ e ∈ l.past, e.KeepsPair client calls key expiresAt) →
      PairKept client calls key expiresAt l) (hcases : l.MoveCases client b calls event l')
    (hkeeps : ∀ e ∈ l'.past, e.KeepsPair client calls key expiresAt) :
    PairKept client calls key expiresAt l' := by
  cases hcases with
  | idle => exact h hkeeps
  | step heffect =>
    obtain ⟨hpast, hlast⟩ := List.forall_mem_append.mp hkeeps
    exact (h hpast).step heffect (List.forall_mem_singleton.mp hlast)
  | stop i =>
    have hkept := h hkeeps
    exact ⟨hkept.stored, fun j pair hj hpair =>
      hkept.pending j pair hj (stage_of_stop hpair nofun),
      fun j e hj he => hkept.hand j e hj (sees_of_stop he),
      fun j e t hj he => hkept.judged j e t hj (stage_of_stop he nofun), hkept.past⟩

section

variable (hfree : ∀ j, callAt calls j = .accessToken key → ¬ (l.stage j).IsUnder)

include hfree

theorem Absent.start (hnever : l.NeverGranted r)
    (hstored : ∀ e, Dict.get? l.entries key = some e → e.tokens.refreshToken ≠ r) :
    Absent calls key r { l with past := [] } where
  neverGranted := ⟨hnever.grants, hnever.pending⟩
  stored := hstored
  hand j _ hj he := absurd (Stage.under_of_sees he) (hfree j hj)
  past _ he := absurd he List.not_mem_nil

theorem PairKept.start {expiresAt : Instant}
    (hstored : ∀ e, Dict.get? l.entries key = some e → e.expiresAt = expiresAt) :
    PairKept client calls key expiresAt { l with past := [] } where
  stored := hstored
  pending j pair hj hpair := hfree j hj (hpair ▸ .granted pair)
  hand j _ hj he := absurd (Stage.under_of_sees he) (hfree j hj)
  judged j _ _ hj he := absurd (he ▸ .reread _ _) (hfree j hj)
  past _ he := absurd he List.not_mem_nil

end

theorem Redeeming.granted_of_granted {pair written : Tokens} (h : Redeeming calls key r i pair l)
    (hst : l.stage i = .granted written) :
    written = pair ∧ ∀ e ∈ l.past, ¬ e.Asks calls key := by
  rcases h.stage with ⟨hgranted, hpast⟩ | hfinished | hgone
  · exact ⟨Stage.granted.inj (hst.symm.trans hgranted), hpast⟩
  · rw [hfinished] at hst
    cases hst
  · rw [hgone] at hst
    cases hst

theorem Redeeming.save {pair : Tokens} {op : Op} {answer : op.Answer}
    (hkey : callAt calls i = .accessToken key) (hexclusive : l.Exclusive calls)
    (h : Redeeming calls key r i pair l)
    (hcases : l.MoveCases client b calls (some ⟨i, op, answer⟩) l') (hop : op.writesTo key = true) :
    (∀ e ∈ l.past, ¬ e.Asks calls key) ∧
      ∃ credentials expiresAt, b.Writes key pair credentials expiresAt op ∧
        Absent calls key r { l' with past := [] } ∧
        PairKept client calls key expiresAt { l' with past := [] } := by
  have hnever := h.neverGranted.moveCases hcases
  cases hcases with
  | @step _ _ _ _ _ st' heffect =>
    obtain ⟨written, credentials, expiresAt, registration, hwrites, hst, rfl, rfl⟩ :=
      heffect.write_cases hop
    obtain ⟨rfl, hpast⟩ := h.granted_of_granted hst
    -- Nobody else is under the lock at this moment.
    have hfree : ∀ j, callAt calls j = .accessToken key →
        ¬ (Function.update l.stage i .finished j).IsUnder := by
      intro j hj hunder
      by_cases hji : j = i
      · rw [hji, Function.update_self] at hunder
        cases hunder
      · rw [Function.update_of_ne hji] at hunder
        exact hexclusive i j key (fun he => hji he.symm) hkey hj (hst ▸ .granted written) hunder
    have hstored : ∀ e, Dict.get? (Dict.insert l.entries (callAt calls i).key
        ⟨written, registration, expiresAt⟩) key = some e →
        e = ⟨written, registration, expiresAt⟩ := by
      intro e he
      rw [hkey, Dict.get?_insert, ClientTask.key, if_pos rfl] at he
      exact (Option.some.inj he).symm
    rw [hkey] at hwrites
    refine ⟨hpast, credentials, expiresAt, hwrites, .start hfree hnever fun e he => ?_,
      .start hfree fun e he => ?_⟩
    · rw [hstored e he]
      exact h.neverGranted.pending i written hst
    · rw [hstored e he]

/-! ### Callers that wait -/

def Stage.along (b : StoreKind) (key : String) (i : Nat) (st : Stage) (past : List Event) : Stage :=
  (past.filter (·.task = i)).foldl (fun st e => st.next b key e.op e.answer) st

theorem Stage.along_concat (b : StoreKind) (key : String) (i : Nat) (st : Stage)
    (past : List Event) (e : Event) : st.along b key i (past ++ [e]) =
      if e.task = i then (st.along b key i past).next b key e.op e.answer
      else st.along b key i past := by
  rw [along, List.filter_append, List.foldl_append, List.filter_cons, List.filter_nil]
  by_cases he : e.task = i
  · rw [if_pos (decide_eq_true he), if_pos he]
    rfl
  · rw [if_neg (by simpa using he), if_neg he]
    rfl

def Tracked (b : StoreKind) (key : String) (i : Nat) (st : Stage) (l : RunState) : Prop :=
  l.stage i = st.along b key i l.past ∨ l.stage i = .gone

theorem Tracked.moveCases {st : Stage} (hkey : (callAt calls i).key = key)
    (h : Tracked b key i st l) (hcases : l.MoveCases client b calls event l') :
    Tracked b key i st l' := by
  cases hcases with
  | idle => exact h
  | @step j op answer m' grants' st' heffect =>
    rw [Tracked, Stage.along_concat]
    dsimp only
    by_cases hij : j = i
    · subst hij
      rw [Function.update_self, if_pos rfl]
      rcases h with h | hgone
      · refine .inl ?_
        rw [heffect.next, h, hkey]
      · exact .inr ((heffect.of_done (.inr hgone)).1.trans hgone)
    · rw [Function.update_of_ne (fun he => hij he.symm), if_neg hij]
      exact h
  | stop j =>
    rw [Tracked]
    dsimp only
    by_cases hij : i = j
    · subst hij
      rw [Function.update_self]
      exact .inr rfl
    · rw [Function.update_of_ne hij]
      exact h

/-- A caller that has seen a pair under the lock, and asks for no other. -/
structure Waiting (client : Client) (i : Nat) (e : StoredEntry) (l : RunState) : Prop where
  stage : (∃ now, (l.stage i = .reread (some e) now ∨ l.stage i = .left (some e) now) ∧
    ∀ t, now = some t → client.needsRefresh t e.expiresAt = false) ∨ l.stage i = .gone
  past : ∀ ev ∈ l.past, ev.task = i → ∀ form, ev.op ≠ .post form

theorem Waiting.moveCases {e : StoredEntry}
    (h : (∀ now, ⟨i, .now, now⟩ ∈ l.past → client.needsRefresh now e.expiresAt = false) →
      Waiting client i e l) (hcases : l.MoveCases client b calls event l')
    (hkeeps : ∀ now, ⟨i, .now, now⟩ ∈ l'.past → client.needsRefresh now e.expiresAt = false) :
    Waiting client i e l' := by
  cases hcases with
  | idle => exact h hkeeps
  | @step j op answer m' grants' st' heffect =>
    obtain ⟨hstage, hpast⟩ := h fun now hmem => hkeeps now (List.mem_append_left _ hmem)
    have hlast : ⟨j, op, answer⟩ ∈ l.past ++ [⟨j, op, answer⟩] :=
      List.mem_append_right _ (List.mem_singleton_self _)
    by_cases hij : j = i
    · subst hij
      rcases hstage with ⟨now, hst, hnow⟩ | hgone
      · obtain ⟨hpost, now', hst', hor⟩ := heffect.of_seen hst hnow
        refine ⟨.inl ⟨now', ?_, ?_⟩, ?_⟩
        · dsimp only
          rw [Function.update_self]
          exact hst'
        · rcases hor with rfl | ⟨t, rfl, hevent⟩
          · exact hnow
          · rintro _ ⟨⟩
            exact hkeeps t (hevent j ▸ hlast)
        · exact List.forall_mem_append.mpr ⟨hpast, List.forall_mem_singleton.mpr fun _ => hpost⟩
      · obtain ⟨hsame, hpost⟩ := heffect.of_done (.inr hgone)
        refine ⟨.inr ?_, ?_⟩
        · dsimp only
          rw [Function.update_self, hsame]
          exact hgone
        · exact List.forall_mem_append.mpr ⟨hpast, List.forall_mem_singleton.mpr fun _ => hpost⟩
    · refine ⟨?_, List.forall_mem_append.mpr ⟨hpast, List.forall_mem_singleton.mpr fun he =>
        absurd he hij⟩⟩
      dsimp only
      rw [Function.update_of_ne fun he => hij he.symm]
      exact hstage
  | stop j =>
    obtain ⟨hstage, hpast⟩ := h hkeeps
    refine ⟨?_, hpast⟩
    dsimp only
    by_cases hij : i = j
    · subst hij
      rw [Function.update_self]
      exact .inr rfl
    · rw [Function.update_of_ne hij]
      exact hstage

/-- The steps with which a load shows a caller an entry that has not expired. -/
inductive StoreKind.Shows (key : String) (i : Nat) (e : StoredEntry) :
    StoreKind → List Event → Prop
  | fetch : Shows key i e .memory [⟨i, .recall key, .ok e⟩]
  | find {b : StoreKind} {doc : Document} {now : Instant} (hb : b ≠ .memory)
    (h : b.entryIn? key doc = some e) (hnow : e.isExpiredAt now = false) :
    Shows key i e b [⟨i, .find key, .ok (some doc)⟩, ⟨i, .now, now⟩]

/-- A caller has acquired the lock of its key, and has loaded this entry since then. -/
def Rereads (b : StoreKind) (key : String) (i : Nat) (e : StoredEntry) (past : List Event) : Prop :=
  ∃ slot earlier since, past = earlier ++ ⟨i, .acquire slot, ()⟩ :: since ∧
    b.Shows key i e (since.filter (·.task = i))

theorem StoreKind.Shows.along {e : StoredEntry} {past : List Event}
    (h : b.Shows key i e (past.filter (·.task = i))) :
    Stage.entered.along b key i past = .reread (some e) none := by
  rw [Stage.along]
  generalize past.filter (·.task = i) = own at h
  cases h with
  | fetch => rfl
  | @find b doc now hb hentry hnow =>
    have hfound : Stage.entered.next b key (.find key) (.ok (some doc)) = .found (some e) :=
      congrArg Stage.found hentry
    rw [List.foldl_cons, List.foldl_cons, List.foldl_nil, hfound]
    simp only [Stage.next, Stage.look, Option.filter_some, hnow, Bool.not_false, if_true]

theorem Waiting.start {e : StoredEntry} (h : Tracked b key i .entered l)
    (hshows : b.Shows key i e (l.past.filter (·.task = i))) :
    Waiting client i e { l with past := [] } := by
  rw [Tracked, hshows.along] at h
  refine ⟨?_, fun _ he => nomatch he⟩
  rcases h with h | hgone
  · exact .inl ⟨none, .inl h, fun _ ht => nomatch ht⟩
  · exact .inr hgone

/-! ### All moves of all tasks -/

/-- A caller asks for a pair with a refresh token and is granted one, and saves it with a later
step; what happens in between and afterwards. -/
def Redeemed (past : List Event) (i : Nat) (r : String) (granted : Tokens) (op : Op)
    (between later : List Event) : Prop :=
  ∃ earlier credentials x answer, past =
    earlier ++ ⟨i, .post (refreshForm r credentials), x⟩ :: (between ++ ⟨i, op, answer⟩ :: later) ∧
    x.tokens .refresh = .ok granted

end

namespace StateOf

variable {c : TaskPool String} {calls : List ClientTask} {l : RunState} {key : String} {i : Nat}

theorem renew (h : StateOf client b calls c l) :
    StateOf client b calls c { l with past := [] } :=
  ⟨h.obeys, h.guardedStages, h.image, h.grants⟩

theorem redeemed (h : StateOf client b calls c l) (hfresh : l.Fresh) {ms : List Move}
    (hi : calls[i]? = some (.accessToken key)) {r : String} {granted : Tokens} {op : Op}
    {between later : List Event} (hredeemed : Redeemed (c.events ms) i r granted op between later)
    (hop : op.writesTo key = true) :
    ∃ credentials expiresAt, b.Writes key granted credentials expiresAt op ∧
      (∀ e ∈ between, ¬ e.Asks calls key) ∧ (∀ e ∈ later, ¬ e.Redeems calls key r) ∧
      ((∀ e ∈ later, e.KeepsPair client calls key expiresAt) →
        ∀ e ∈ later, ¬ e.Asks calls key) := by
  have hkey := callAt_eq hi
  obtain ⟨earlier, credentials, x, answer, hevents, hx⟩ := hredeemed
  obtain ⟨before, post, rest, rfl, -, hpost, hrest⟩ := TaskPool.move_of_events hevents
  obtain ⟨mid, save, after, rfl, hbetween, hsave, hlater⟩ := TaskPool.move_of_events hrest
  obtain ⟨l₁, h₁, hfresh₁, -⟩ := h.after (P := RunState.Fresh)
    (fun _ _ _ _ hl hcases => hl.moveCases hcases) hfresh before
  obtain ⟨l₂, h₂, hcases⟩ := h₁.move post
  rw [hpost] at hcases
  have hstart : Redeeming calls key r i granted { l₂ with past := [] } :=
    .start hfresh₁ hi hcases ((Exchange.pair?_eq_some .refresh).mpr hx)
  obtain ⟨l₃, h₃, hredeeming, hpast⟩ := h₂.renew.after (P := Redeeming calls key r i granted)
    (fun _ _ _ hexclusive hl hcases => hl.moveCases hkey hexclusive hcases) hstart mid
  rw [hbetween] at hpast
  obtain ⟨l₄, h₄, hcases⟩ := h₃.move save
  rw [hsave] at hcases
  obtain ⟨hnone, credentials', expiresAt, hwrites, habsent, hkept⟩ :=
    hredeeming.save hkey h₃.exclusive hcases hop
  rw [hpast] at hnone
  refine ⟨credentials', expiresAt, hwrites, hnone, ?_, ?_⟩
  · obtain ⟨l₅, -, hl₅, hpast₅⟩ := h₄.renew.after (P := Absent calls key r)
      (fun _ _ _ _ hl hcases => hl.moveCases hcases) habsent after
    rw [hlater] at hpast₅
    have hlast := hl₅.past
    rw [hpast₅] at hlast
    exact hlast
  · obtain ⟨l₅, -, hl₅, hpast₅⟩ := h₄.renew.after
      (P := fun l => (∀ e ∈ l.past, e.KeepsPair client calls key expiresAt) →
        PairKept client calls key expiresAt l)
      (fun _ _ _ _ hl hcases => PairKept.moveCases hl hcases) (fun _ => hkept) after
    rw [hlater] at hpast₅
    rw [hpast₅] at hl₅
    intro hkeeps
    have hlast := (hl₅ hkeeps).past
    rw [hpast₅] at hlast
    exact hlast

theorem waits (h : StateOf client b calls c l) {before : List Move}
    (hi : calls[i]? = some (.accessToken key)) {e : StoredEntry}
    (hreads : Rereads b key i e (c.events before)) :
    ∃ l' : RunState, StateOf client b calls (c.after before) { l' with past := [] } ∧
      Waiting client i e { l' with past := [] } := by
  have hkey : (callAt calls i).key = key := by
    rw [callAt_eq hi]
    rfl
  obtain ⟨slot, earlier, since, hevents, hshows⟩ := hreads
  obtain ⟨early, acquire, late, rfl, -, hacquire, hlate⟩ := TaskPool.move_of_events hevents
  obtain ⟨l₁, h₁, -⟩ := h.after (P := fun _ => True) (fun _ _ _ _ _ _ => trivial) trivial early
  obtain ⟨l₂, h₂, hcases⟩ := h₁.move acquire
  rw [hacquire] at hcases
  have hentered : Tracked b key i .entered { l₂ with past := [] } := by
    cases hcases with
    | step heffect =>
      refine .inl ?_
      dsimp only
      rw [Function.update_self, heffect.next]
      rfl
  obtain ⟨l₃, h₃, htracked, hpast⟩ := h₂.renew.after (P := Tracked b key i .entered)
    (fun _ _ _ _ hl hcases => hl.moveCases hkey hcases) hentered late
  rw [hlate] at hpast
  have hafter : ((c.after early).move acquire).after late = c.after (early ++ acquire :: late) :=
    (c.after_append early (acquire :: late)).symm
  rw [hafter] at h₃
  exact ⟨l₃, h₃.renew, .start htracked (by rw [hpast]; exact hshows)⟩

theorem result_of_waiting (h : StateOf client b calls c l)
    (hi : calls[i]? = some (.accessToken key)) {e : StoredEntry} (hwaiting : Waiting client i e l)
    {p : Program String} {owed : List Op} {r : Except Failure String}
    (ht : c.tasks[i]? = some (.running p owed)) (hr : (Task.running p owed).result? = some r) :
    r = usableResult key e.tokens.accessToken := by
  have hends : (callAt calls i).Ends client (l.stage i) r := (h.obeys i _ ht).1.ends hr
  rw [callAt_eq hi] at hends
  obtain ⟨hgone, hunder, hleft⟩ := hends
  rcases hwaiting.stage with ⟨now, hreread | hst, hnow⟩ | hst
  · exact absurd (hreread ▸ .reread _ _) hunder
  · obtain ⟨t, rfl, hr⟩ := hleft e now hst
    exact hr (hnow t rfl)
  · exact absurd hst hgone

theorem reread (h : StateOf client b calls c l) {before rest : List Move}
    (hi : calls[i]? = some (.accessToken key)) {e : StoredEntry}
    (hreads : Rereads b key i e (c.events before))
    (hkeeps : ∀ now, ⟨i, .now, now⟩ ∈ (c.after before).events rest →
      client.needsRefresh now e.expiresAt = false) :
    (∀ ev ∈ (c.after before).events rest, ev.task = i → ∀ form, ev.op ≠ .post form) ∧
    ∀ p owed r, ((c.after before).after rest).tasks[i]? = some (.running p owed) →
      (Task.running p owed).result? = some r → r = usableResult key e.tokens.accessToken := by
  obtain ⟨l', h', hstart⟩ := h.waits hi hreads
  obtain ⟨l'', h'', hwaiting, hpast⟩ := h'.after
    (P := fun l => (∀ now, ⟨i, .now, now⟩ ∈ l.past →
      client.needsRefresh now e.expiresAt = false) → Waiting client i e l)
    (fun _ _ _ _ hl hcases => Waiting.moveCases hl hcases) (fun _ => hstart) rest
  rw [hpast] at hwaiting
  have hlast := hwaiting hkeeps
  have hposts := hlast.past
  rw [hpast] at hposts
  exact ⟨hposts, fun p owed r ht hr => h''.result_of_waiting hi hlast ht hr⟩

end StateOf

/-- In a client that refreshes one at a time, callers of a key never ask again with a refresh token
that one of them has redeemed, once the pair that it was granted is saved; and while that pair is
not due and nobody logs in, they ask for no pair at all. A caller that has waited for the lock, and
then loads a pair that it does not find due, asks for none: it gives out the one that it has loaded,
unless the access token is empty. -/
theorem Client.redeemed_once (hmode : client.mode = .singleFlight) (b : StoreKind)
    {calls : List ClientTask} {m : Dict StoredEntry} {w : World} {c : TaskPool String}
    (hc : c = (client.on b).pool calls w) (hw : w.flight = .empty) (himage : b.image m w)
    (hgrants : w.endpoint.grants.Nodup)
    (hstored : ∀ key e, Dict.get? m key = some e → e.tokens.refreshToken ∉ w.endpoint.grants)
    {key : String} {i : Nat} (hi : calls[i]? = some (.accessToken key)) :
    (∀ ms r granted op between later, Redeemed (c.events ms) i r granted op between later →
      op.writesTo key = true →
      ∃ credentials expiresAt, b.Writes key granted credentials expiresAt op ∧
        (∀ e ∈ between, ¬ e.Asks calls key) ∧ (∀ e ∈ later, ¬ e.Redeems calls key r) ∧
        ((∀ e ∈ later, e.KeepsPair client calls key expiresAt) →
          ∀ e ∈ later, ¬ e.Asks calls key)) ∧
    (∀ before rest e, Rereads b key i e (c.events before) →
      (∀ now, ⟨i, .now, now⟩ ∈ (c.after before).events rest →
        client.needsRefresh now e.expiresAt = false) →
      (∀ ev ∈ (c.after before).events rest, ev.task = i → ∀ form, ev.op ≠ .post form) ∧
      (.cancel i ∉ before ++ rest → (List.replicate 14 (Move.run i)).Sublist rest →
        (c.after (before ++ rest)).tasks[i]?.bind Task.result? =
          some (usableResult key e.tokens.accessToken))) := by
  subst hc
  have hstart := StateOf.start hmode hw himage calls
  refine ⟨fun ms r granted op between later hredeemed hop => ?_,
    fun before rest e hreads hkeeps => ?_⟩
  · exact hstart.redeemed (.start hgrants hstored) hi hredeemed hop
  · obtain ⟨hpost, hresult⟩ := hstart.reread hi hreads hkeeps
    refine ⟨hpost, fun hcancel hturns => ?_⟩
    obtain ⟨slot, earlier, since, hevents, -⟩ := hreads
    have hacquired : ⟨i, .acquire slot, ()⟩ ∈ ((client.on b).pool calls w).events before := by
      rw [hevents]
      exact List.mem_append_right _ List.mem_cons_self
    have honly : ∀ store ∈ (client.on b).store, store.StoreOnly := by
      rintro _ ⟨⟩
      exact b.storeOnly
    have hends : ∀ store ∈ (client.on b).store, store.EndsWithinThree := by
      rintro _ ⟨⟩
      exact b.endsWithinThree
    rw [List.mem_append, not_or] at hcancel
    have hbegun : ((client.on b).pool calls w).tasks[i]? =
        some (.running ((client.on b).accessToken key) []) := by
      rw [Client.pool, List.getElem?_map, hi]
      rfl
    obtain ⟨p, owed, ht⟩ := TaskPool.running_after hbegun hcancel.1
    obtain ⟨p', owed', r, ht', hr⟩ := Client.result_of_acquired hends honly hmode hacquired ht
      hcancel.2 hturns
    rw [TaskPool.after_append, ht', Option.bind_some, hr, hresult p' owed' r ht' hr]

/-! ### Two callers of an expiring pair -/

namespace Rotating

def granted (accessToken : String) : Tokens := ⟨accessToken, "rt_2", 900⟩

def answer (accessToken : String) : Exchange :=
  .answer 200 (some (Utf8.encode (granted accessToken).json.compact))

theorem tokens_answer (accessToken : String) :
    (answer accessToken).tokens .refresh = .ok (granted accessToken) :=
  Exchange.tokens_granted .refresh (granted accessToken)

def callers : List ClientTask := [.accessToken "u1", .accessToken "u1"]

def world (x : Exchange) : World := { Expiring.world with endpoint := .scripted [x] }

theorem grants_world (accessToken : String) :
    (world (answer accessToken)).endpoint.grants = ["rt_2"] := by
  have hpair := (Exchange.pair?_eq_some .refresh).mpr (tokens_answer accessToken)
  simp only [world, Endpoint.grants, List.filterMap_cons, hpair, Option.map_some,
    List.filterMap_nil, granted]

def pool (x : Exchange) : TaskPool String := (Expiring.client.on .memory).pool callers (world x)

def waiting : List Move := List.replicate 6 (.run 0) ++ List.replicate 3 (.run 1)

def asking : List Move := waiting ++ [.run 0]

def sharing : List Move := List.replicate 6 (.run 0) ++ List.replicate 2 (.run 1)

def turns : List Move := List.replicate 14 (.run 1)

def slot : Slot := ⟨"u1", 0⟩

def leave (result : Except Failure String) : Program String := do
  Program.perform (.release slot)
  Program.perform (.retire slot)
  Program.perform (.forget slot)
  Program.ofExcept result

def remainder (result : Except Failure Tokens) : Program String :=
  (((((Program.perform (.count (.request .refresh (.ofResult result)))).bind fun _ =>
    .ofExcept result).bind fun tokens =>
      (Expiring.client.on .memory).persist .refresh "u1" tokens none).bind fun g =>
        .done g.tokens).bind fun tokens => Client.usable "u1" tokens.accessToken)

def answered (x : Exchange) (result : Except Failure Tokens) : TaskPool String where
  tasks := [
    .running ((remainder result).attempt.bind leave) [.release slot, .retire slot, .forget slot],
    .running (.step (.acquire slot) fun _ =>
      ((Expiring.client.on .memory).refreshAgain "u1").attempt.bind leave)
      [.retire slot, .forget slot]]
  world := ((pool x).after asking).world

def expiry : Instant := (Instant.epoch.addSeconds? 870).getD .epoch

def saved (accessToken : String) : StoredEntry := ⟨granted accessToken, none, expiry⟩

def save (accessToken : String) : Op := .keep "u1" (granted accessToken) none expiry

def credentials : Credentials := ⟨"default", "id", "secret"⟩

def between (accessToken : String) : List Event :=
  [⟨0, .count (.request .refresh (.ofResult (.ok (granted accessToken)))), ()⟩, ⟨0, .now, .epoch⟩]

def parting (i : Nat) : List Event :=
  [⟨i, .release slot, ()⟩, ⟨i, .retire slot, ()⟩, ⟨i, .forget slot, ()⟩]

def loading (accessToken : String) : List Event :=
  [⟨1, .acquire slot, ()⟩, ⟨1, .recall "u1", .ok (saved accessToken)⟩]

def judging : List Event := ⟨1, .now, .epoch⟩ :: parting 1

def later (accessToken : String) : List Event := parting 0 ++ loading accessToken ++ judging

def shared (accessToken : String) : List Event :=
  between accessToken ++ ⟨0, save accessToken, ()⟩ :: (parting 0 ++ loading accessToken)

theorem not_due {accessToken : String} {i : Nat} {now : Instant}
    (h : ⟨i, .now, now⟩ ∈ later accessToken) :
    Expiring.client.needsRefresh now expiry = false := by
  simp only [later, parting, loading, judging, List.cons_append, List.nil_append, List.mem_cons,
    List.not_mem_nil, or_false] at h
  rcases h with h | h | h | h | h | h | h | h | h <;> cases h
  decide

theorem keepsPair_later (accessToken : String) :
    ∀ e ∈ later accessToken, e.KeepsPair Expiring.client callers "u1" expiry := by
  have hquiet : ∀ e ∈ later accessToken, e.op.writesTo "u1" = false := by
    simp [later, parting, loading, judging, Op.writesTo]
  exact fun e he => ⟨fun _ now hnow => not_due (hnow ▸ he), fun _ => hquiet e he⟩

-- The grant stays folded up while the moves are computed; `tokens_answer` opens it.
structure Shares (accessToken : String) : Prop where
  asks : ((pool (answer accessToken)).after waiting).events [.run 0] =
    [⟨0, .post (refreshForm "rt_1" credentials), answer accessToken⟩]
  asked : (pool (answer accessToken)).after asking =
    answered (answer accessToken) ((answer accessToken).tokens .refresh)
  shared : (answered (answer accessToken) (.ok (granted accessToken))).events sharing =
    shared accessToken
  judging : ((answered (answer accessToken) (.ok (granted accessToken))).after sharing).events
    turns = judging

section

variable {accessToken : String}

theorem Shares.after_asking (h : Shares accessToken) : (pool (answer accessToken)).after asking =
    answered (answer accessToken) (.ok (granted accessToken)) := by
  rw [h.asked, tokens_answer]

theorem Shares.events (h : Shares accessToken) :
    (pool (answer accessToken)).events (asking ++ sharing) =
      (pool (answer accessToken)).events waiting ++
        ⟨0, .post (refreshForm "rt_1" credentials), answer accessToken⟩ ::
          Rotating.shared accessToken := by
  rw [TaskPool.events_append, h.after_asking, h.shared, asking, TaskPool.events_append, h.asks,
    List.append_assoc]
  rfl

theorem Shares.events_turns (h : Shares accessToken) :
    ((pool (answer accessToken)).after (asking ++ sharing)).events turns = Rotating.judging := by
  rw [TaskPool.after_append, h.after_asking, h.judging]

theorem Shares.rereads (h : Shares accessToken) : Rereads .memory "u1" 1 (saved accessToken)
    ((pool (answer accessToken)).events (asking ++ sharing)) := by
  refine ⟨slot, (pool (answer accessToken)).events waiting ++
    ⟨0, .post (refreshForm "rt_1" credentials), answer accessToken⟩ ::
      (between accessToken ++ ⟨0, save accessToken, ()⟩ :: parting 0),
    [⟨1, .recall "u1", .ok (saved accessToken)⟩], ?_, .fetch⟩
  rw [h.events, List.append_assoc]
  rfl

end

theorem shares_usable : Shares "at_2" where
  asks := rfl
  asked := rfl
  shared := rfl
  judging := rfl

theorem shares_empty : Shares "" where
  asks := rfl
  asked := rfl
  shared := rfl
  judging := rfl

theorem redeemed_by_first :
    Redeemed ((pool (answer "at_2")).events (asking ++ sharing ++ turns)) 0 "rt_1"
      (granted "at_2") (save "at_2") (between "at_2") (later "at_2") ∧
    (∀ e ∈ later "at_2", ¬ e.Redeems callers "u1" "rt_1") ∧
    (∀ e ∈ later "at_2", ¬ e.Asks callers "u1") ∧
    ((pool (answer "at_2")).after (asking ++ sharing ++ turns)).tasks[1]?.bind Task.result? =
      some (.ok "at_2") := by
  have hpool : pool (answer "at_2") =
    (Expiring.client.on .memory).pool callers (world (answer "at_2")) := rfl
  have himage : StoreKind.memory.image [("u1", Expiring.entry)] (world (answer "at_2")) := rfl
  have hnodup : (world (answer "at_2")).endpoint.grants.Nodup := by
    rw [grants_world]
    decide
  have hstored : ∀ key e, Dict.get? [("u1", Expiring.entry)] key = some e →
      e.tokens.refreshToken ∉ (world (answer "at_2")).endpoint.grants := by
    intro key e he
    rw [grants_world]
    rw [Dict.get?] at he
    split at he
    · cases he
      decide
    · cases he
  obtain ⟨hsaved, -⟩ := Client.redeemed_once rfl .memory hpool rfl himage hnodup hstored
    (show callers[0]? = some (.accessToken "u1") from rfl)
  obtain ⟨-, hreread⟩ := Client.redeemed_once rfl .memory hpool rfl himage hnodup hstored
    (show callers[1]? = some (.accessToken "u1") from rfl)
  have hredeemed : Redeemed ((pool (answer "at_2")).events (asking ++ sharing ++ turns)) 0 "rt_1"
      (granted "at_2") (save "at_2") (between "at_2") (later "at_2") := by
    refine ⟨(pool (answer "at_2")).events waiting, credentials, answer "at_2", (), ?_,
      tokens_answer "at_2"⟩
    rw [TaskPool.events_append, shares_usable.events_turns, shares_usable.events, List.append_assoc]
    rfl
  obtain ⟨_, _, hwrites, -, habsent, hkept⟩ := hsaved _ _ _ _ _ _ hredeemed rfl
  cases hwrites
  have hcancel : .cancel 1 ∉ asking ++ sharing ++ turns := by
    simp [asking, waiting, sharing, turns]
  refine ⟨hredeemed, habsent, hkept (keepsPair_later _), ?_⟩
  refine (hreread _ turns _ shares_usable.rereads fun now hnow => ?_).2 hcancel (.refl _)
  rw [shares_usable.events_turns] at hnow
  exact not_due (List.mem_append_right (parting 0 ++ loading "at_2") hnow)

/-- A pair whose access token is empty is not given out. -/
theorem empty_not_given_out :
    Rereads .memory "u1" 1 (saved "") ((pool (answer "")).events (asking ++ sharing)) ∧
    (∀ now, ⟨1, .now, now⟩ ∈ ((pool (answer "")).after (asking ++ sharing)).events turns →
      Expiring.client.needsRefresh now (saved "").expiresAt = false) ∧
    ((pool (answer "")).after (asking ++ sharing ++ turns)).tasks[1]?.bind Task.result? =
      some (.error (.emptyAccessToken "u1")) := by
  have hresult : (((answered (answer "") (.ok (granted ""))).after sharing).after
      turns).tasks[1]?.bind Task.result? = some (.error (.emptyAccessToken "u1")) := rfl
  refine ⟨shares_empty.rereads, fun now hnow => ?_, ?_⟩
  · rw [shares_empty.events_turns] at hnow
    exact not_due (List.mem_append_right (parting 0 ++ loading "") hnow)
  · rw [TaskPool.after_append, TaskPool.after_append, shares_empty.after_asking, hresult]

end Rotating
end TokenKeeper
