import HealthSignal.Proofs.Journal.Ledger

/-! The records that make up a table, and what is known of all of them. -/
namespace HealthSignal

variable {kind : RecordKind} {t : Table} {P : Record → Prop}

def Table.Shows (kind : RecordKind) (P : Record → Prop) (t : Table) : Prop :=
  ∀ x ∈ t, ∃ r : Record, r.Fits ∧ P r ∧ r.stored kind = x

namespace Table.Shows

theorem insert (h : t.Shows kind P) {r : Record} (hr : r.Fits) (hP : P r) :
    (t.insert (recordKey r.id r.seq) (r.toJson kind)).Shows kind P := by
  intro x hx
  obtain rfl | hx := mem_insert hx
  · exact ⟨r, hr, hP, rfl⟩
  · exact h x hx

theorem filter (h : t.Shows kind P) (p : String × String → Bool) : Table.Shows kind P (t.filter p) :=
  fun x hx => h x (List.mem_filter.mp hx).1

theorem mono {Q : Record → Prop} (h : t.Shows kind P) (hPQ : ∀ r, P r → Q r) : t.Shows kind Q := by
  intro x hx
  obtain ⟨r, hr, hP, heq⟩ := h x hx
  exact ⟨r, hr, hPQ r hP, heq⟩

theorem exists_records (h : t.Shows kind P) :
    ∃ rs : List Record, t = rs.map (Record.stored kind) ∧ (∀ r ∈ rs, r.Fits) ∧ ∀ r ∈ rs, P r := by
  induction t with
  | nil => exact ⟨[], rfl, by simp, by simp⟩
  | cons x rest ih =>
    obtain ⟨⟨r, hr, hP, rfl⟩, hrest⟩ := List.forall_mem_cons.mp h
    obtain ⟨rs, rfl, hfits, hPs⟩ := ih hrest
    refine ⟨r :: rs, rfl, ?_, ?_⟩
    · exact List.forall_mem_cons.mpr ⟨hr, hfits⟩
    · exact List.forall_mem_cons.mpr ⟨hP, hPs⟩

end Table.Shows

/-- The stored form tells which record it is. -/
theorem Record.stored_inj {r s : Record} (hr : r.Fits) (hs : s.Fits) (h : r.stored kind = s.stored kind) :
    r = s := by
  have htext : r.toJson kind = s.toJson kind := (Prod.mk.inj h).2
  have := Record.ofJson?_toJson kind hr
  rw [htext, Record.ofJson?_toJson kind hs] at this
  exact (Option.some.inj this).symm

end HealthSignal
