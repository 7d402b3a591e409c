import TokenKeeper.Proofs.Store.Expiry
import TokenKeeper.Proofs.Store.Matching

/-!
# What loads reclaim

A load changes the collection in one case only: it finds a document of the form of the store, and
the expiry of the document is over. Then the document is deleted, as if by name, and nothing else
is. The expiry is compared as the text that was found, so it does not matter how an instant is
spelled.
-/
namespace TokenKeeper

variable {w : World} {key name s : String} {doc : Document}

namespace World

/-- The rows of the table in use were put there by upserts. -/
def BuiltByUpserts (w : World) : Prop :=
  ∀ name, w.collection = .table name → w.database.BuiltByUpserts

theorem Ready.deleteIf_self (h : w.Ready) (hbuilt : w.BuiltByUpserts)
    (hfind : w.find key = .ok (some doc)) (hname : Row.PlainName name)
    (hget : Dict.get? doc name = some (.str s)) :
    ((w.cell key).deleteIf key name (.str s)).1 = .ok true := by
  have hsame : (Json.str s).same (.str s) = true := beq_self_eq_true s
  rw [← hsame]
  exact h.deleteIf_found hfind hget fun table hc =>
    ⟨⟨hbuilt table hc, hname, Nat.zero_le _⟩, .inl trivial⟩

end World

namespace StoreKind

variable {b : StoreKind}

/-- The document of a key has the form of the back end, and its expiry is over. -/
def Overdue (b : StoreKind) (w : World) (key : String) : Prop :=
  ∃ doc t, w.find key = .ok (some doc) ∧ b.expiryIn? doc = some t ∧ t.before w.clock = true

theorem run_load_overdue (hb : b ≠ .memory) (hw : w.Ready) (hbuilt : w.BuiltByUpserts)
    (h : b.Overdue w key) : ∃ w', (b.store.load key).run World.perform w =
        (.error (.expired key), w') ∧ w.delete key = .ok w' ∧ w.Edited key w' ∧
      w'.find key = .ok none := by
  obtain ⟨doc, t, hfind, ht, hpast⟩ := h
  have hexpiry : b.expiry? w key = some t := (expiry?_of_found hb hfind).trans ht
  obtain ⟨doc', s, hfind', -, hget⟩ := exists_document hb hexpiry
  cases hfind.symm.trans hfind'
  have hself := hw.deleteIf_self hbuilt hfind plainName_expiryField hget
  obtain ⟨w', hperform, hedited, hafter⟩ := hw.deleteIf key expiryField (.str s)
  rw [hself] at hperform
  have hdelete := World.deleteIf_of_perform hperform
  refine ⟨w', ?_, World.delete_of_deleteIf hdelete, hedited, ?_⟩
  · rw [run_load_purge hb hfind ht hpast, run_purge_deleteIf hget, hdelete]
  · rw [hedited.ready.find, hafter, Cell.find_of_deleteIf hself]

theorem find_ne_expired (w : World) (key k : String) : w.find key ≠ .error (.expired k) := by
  intro h
  unfold World.find at h
  split at h
  · cases h
  · unfold Database.find at h
    cases hdatabase : w.database with
    | ready rows =>
      simp only [hdatabase, Database.rows, bind, Except.bind] at h
      split at h
      · cases h
      · split at h <;> cases h
    | _ =>
      rw [hdatabase] at h
      cases h

theorem run_load_otherwise (hb : b ≠ .memory) (h : ¬ b.Overdue w key) :
    ∃ answer, (b.store.load key).run World.perform w = (answer, w) ∧
      answer ≠ .error (.expired key) := by
  cases hfind : w.find key with
  | error e =>
    refine ⟨.error e, by rw [load_eq hb, Program.run_bind, run_findStored_eq, hfind], fun he => ?_⟩
    cases he
    exact find_ne_expired w key key hfind
  | ok found =>
    cases found with
    | none =>
      exact ⟨.error (.nothingStored key),
        by rw [load_eq hb, Program.run_bind, run_findStored_eq, hfind], nofun⟩
    | some doc =>
      obtain ⟨refusal, result, hrefusal, hresult, hopened⟩ := opened_eq hb key doc
      rw [run_load_found hb hfind, hopened]
      cases ht : b.expiryIn? doc with
      | none => exact ⟨.error refusal, rfl, fun he => hrefusal (by cases he; rfl)⟩
      | some t =>
        have hlive : ¬ t.before w.clock = true := fun hpast => h ⟨doc, t, hfind, ht, hpast⟩
        refine ⟨result, ?_, hresult⟩
        change Program.run World.perform (if t.before w.clock then _ else _) w = _
        rw [if_neg hlive]
        cases result <;> rfl

/-- A load changes what a collection holds only if the document of the key is overdue. It reports
the expiry then, and the document is gone, as if deleted by name, while all else stays. In every
other case nothing changes at all. -/
theorem load_reclaims_overdue (hb : b ≠ .memory) (hw : w.Ready) (hbuilt : w.BuiltByUpserts)
    (key : String) : ∃ answer w', (b.store.load key).run World.perform w = (answer, w') ∧
      ((∃ k, w'.find k ≠ w.find k) ↔ b.Overdue w key) ∧
      (answer = .error (.expired key) ↔ b.Overdue w key) ∧
      (b.Overdue w key → w.delete key = .ok w' ∧ w'.find key = .ok none ∧ w.Edited key w' ∧
        ∀ other, other ≠ key → w'.find other = w.find other) ∧
      (¬ b.Overdue w key → w' = w) := by
  by_cases h : b.Overdue w key
  · obtain ⟨w', hrun, hdelete, hedited, hgone⟩ := run_load_overdue hb hw hbuilt h
    obtain ⟨doc, t, hfind, -⟩ := id h
    refine ⟨_, w', hrun, iff_of_true ⟨key, ?_⟩ h, iff_of_true rfl h,
      fun _ => ⟨hdelete, hgone, hedited, fun _ => hedited.find hw⟩, fun hn => absurd h hn⟩
    rw [hgone, hfind]
    exact nofun
  · obtain ⟨answer, hrun, hanswer⟩ := run_load_otherwise hb h
    exact ⟨answer, w, hrun, iff_of_false (fun ⟨_, hk⟩ => hk rfl) h, iff_of_false hanswer h,
      fun hdue => absurd hdue h, fun _ => rfl⟩

end StoreKind

/-! ### A row with an expiry in a spelling of its own -/

namespace Overdue

def spelled : String := " 1970-01-01t01:00:00.5 +02:00 "

def fields : Dict String :=
  [("access_token", "at_1"), (expiryField, spelled), ("note", "?"), ("refresh_token", "rt_1")]

def row : World :=
  { World.isolated .epoch .empty with
    database := .ready (Database.setText [] "tokens" "u1" (Row.text fields)) }

theorem row_builtByUpserts : row.BuiltByUpserts := by
  have hordered : Dict.Ordered (Row.strings fields) := by
    unfold Dict.Ordered
    decide
  have hupsert : Database.empty.upsert "tokens" "u1" (Row.strings fields) =
      .ok (.ready (Database.setText [] "tokens" "u1" (Row.text fields))) := rfl
  exact fun _ _ => .upsert "tokens" "u1" hordered .empty hupsert

theorem row_ready : row.Ready := ⟨rfl, ⟨_, rfl⟩⟩

theorem row_overdue : StoreKind.documents.Overdue row "u1" := by
  have hfind : row.find "u1" = .ok (some (Row.document fields)) := by
    have hcell : row.cell "u1" = .row (some (Row.text fields)) := rfl
    rw [row_ready.find, hcell, Cell.find]
    simp only [Row.documentOfText?_text]
  have hexpiry : StoreKind.documents.expiryIn? (Row.document fields) =
      some ((Timestamp.read? spelled).getD .epoch) := by decide +kernel
  have hpast : ((Timestamp.read? spelled).getD .epoch).before .epoch = true := by decide
  exact ⟨_, _, hfind, hexpiry, hpast⟩

theorem row_reclaimed :
    StoreKind.documents ≠ .memory ∧ row.Ready ∧ row.BuiltByUpserts ∧
    ((StoreKind.documents.store.load "u1").run World.perform row).1 = .error (.expired "u1") ∧
    ((StoreKind.documents.store.load "u1").run World.perform row).2.find "u1" = .ok none ∧
    Timestamp.text ((Timestamp.read? spelled).getD .epoch) ≠ spelled := by
  obtain ⟨answer, w', hrun, -, hanswer, hdue, -⟩ :=
    StoreKind.load_reclaims_overdue (b := .documents) nofun row_ready row_builtByUpserts "u1"
  rw [hrun]
  exact ⟨nofun, row_ready, row_builtByUpserts, hanswer.mpr row_overdue, (hdue row_overdue).2.1,
    by decide⟩

end Overdue
end TokenKeeper
