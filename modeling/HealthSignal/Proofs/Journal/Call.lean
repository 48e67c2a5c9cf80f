import HealthSignal.Proofs.Journal.Ledger

/-! Calls on a journal under any ids, with their answers. What an id is answered depends on what its range holds,
and most calls under other ids leave that as it is. -/
namespace HealthSignal

namespace Journal

inductive Call
  | write (w : Write)
  | replay
  | load
  | reopen

def Call.Fits : Call → Prop
  | .write w => w.Fits
  | .replay | .load | .reopen => True

instance (c : Call) : Decidable c.Fits :=
  match c with
  | .write w => inferInstanceAs (Decidable w.Fits)
  | .replay | .load | .reopen => inferInstanceAs (Decidable True)

inductive Answer
  | written (r : Except JournalError Unit)
  | pruned (count : PruneCount)
  | entries (r : Except JournalError (List Record))
  | snapshot (r : Except JournalError (Option Record))
  | reopened

def answer (j : Journal) (id : String) : Call → Answer
  | .write (.append stamp seq payload) => .written ((j.append stamp id seq payload).map fun _ => ())
  | .write (.save stamp seq payload) => .written ((j.save stamp id seq payload).map fun _ => ())
  | .write (.prune below) => .pruned (j.prune id below).2
  | .replay => .entries (j.replay id)
  | .load => .snapshot (j.load id)
  | .reopen => .reopened

def call (j : Journal) (id : String) : Call → Journal
  | .write w => j.write id w
  | .replay | .load | .reopen => j

def after (j : Journal) : List (String × Call) → Journal
  | [] => j
  | (id, c) :: rest => (j.call id c).after rest

def answersTo (p : String) (j : Journal) : List (String × Call) → List (Call × Answer)
  | [] => []
  | (id, c) :: rest =>
    if id = p then (c, j.answer id c) :: (j.call id c).answersTo p rest
    else (j.call id c).answersTo p rest

/-- A call under `q` that is of no concern to `p`. Writing matters to the ids that `q` continues, and pruning to those
that continue `q` too. -/
def Call.Clear (p q : String) : Call → Prop
  | .write (.prune _) => Unrelated p q
  | .write _ | .replay | .load | .reopen => q ≠ p ∧ ¬ Continues p q

instance (p q : String) (c : Call) : Decidable (c.Clear p q) :=
  match c with
  | .write (.prune _) => inferInstanceAs (Decidable (Unrelated p q))
  | .write (.append ..) | .write (.save ..) | .replay | .load | .reopen =>
    inferInstanceAs (Decidable (q ≠ p ∧ ¬ Continues p q))

structure Sorted (j : Journal) : Prop where
  entries : j.entries.Sorted
  snapshots : j.snapshots.Sorted

theorem Sorted.put {j : Journal} (h : j.Sorted) (kind : RecordKind) (id : String) (seq : Nat)
    (text : String) : (j.put kind id seq text).Sorted := by
  cases kind with
  | entry => exact ⟨h.entries.insert, h.snapshots⟩
  | snapshot => exact ⟨h.entries, h.snapshots.insert⟩

theorem Sorted.call {j : Journal} (h : j.Sorted) (id : String) {c : Call} (hc : c.Fits) :
    (j.call id c).Sorted := by
  cases c with
  | replay | load | reopen => exact h
  | write w =>
    obtain he | ⟨kind, r, -, -, he⟩ | ⟨below, -, he⟩ := write_cases j id hc
    · rwa [Journal.call, he]
    · rw [Journal.call, he]
      exact h.put ..
    · rw [Journal.call, he]
      exact ⟨h.entries.filter _, h.snapshots.filter _⟩

structure Alike (p : String) (j j' : Journal) : Prop where
  entries : j.entries.inRange (.ofId p) = j'.entries.inRange (.ofId p)
  snapshots : j.snapshots.inRange (.ofId p) = j'.snapshots.inRange (.ofId p)

namespace Alike
variable {p q : String} {j j' : Journal}

theorem put_clear (j : Journal) (kind : RecordKind) (hne : q ≠ p) (hforth : ¬ Continues p q) {seq : Nat}
    (hseq : seq < UInt64.size) (text : String) : Alike p (j.put kind q seq text) j := by
  have hout : (KeyRange.ofId p).contains (recordKey q seq) = false := by
    rw [Bool.eq_false_iff, Ne, contains_ofId_recordKey hseq]
    exact fun h => h.elim hne hforth
  cases kind with
  | entry => exact ⟨Table.inRange_insert_outside hout, rfl⟩
  | snapshot => exact ⟨rfl, Table.inRange_insert_outside hout⟩

/-- A call that is of no concern to `p` leaves the range of `p` as it is. -/
theorem call_clear (j : Journal) {c : Call} (hq : c.Clear p q) (hc : c.Fits) : Alike p (j.call q c) j := by
  cases c with
  | replay | load | reopen => exact ⟨rfl, rfl⟩
  | write w =>
    cases w with
    | append stamp seq payload =>
      rw [Journal.call, write, append_put]
      cases j.append stamp q seq payload with
      | error e => exact ⟨rfl, rfl⟩
      | ok => exact put_clear j .entry hq.1 hq.2 hc.2 _
    | save stamp seq payload =>
      by_cases hid : q = ""
      · subst hid
        exact ⟨rfl, rfl⟩
      · rw [Journal.call, write, save_eq hid]
        exact put_clear j .snapshot hq.1 hq.2 hc.2 _
    | prune below =>
      exact ⟨Table.inRange_removeRange_apart _ hq hc, Table.inRange_removeRange_apart _ hq hc⟩

/-- An entry is taken in both journals or refused in both, for the same reason. -/
theorem append (h : Alike p j j') (stamp seq : Nat) (payload : String) :
    (j.append stamp p seq payload).map (fun _ => ()) = (j'.append stamp p seq payload).map fun _ => () := by
  simp only [Journal.append, bind, Except.bind, h.entries]
  by_cases hid : p = ""
  · simp only [hid, if_true]
    rfl
  · simp only [hid, if_false]
    cases decodeLast .entry (j'.entries.inRange (.ofId p)) with
    | error e => rfl
    | ok last =>
      cases last with
      | none => rfl
      | some last =>
        simp only
        split <;> rfl

theorem answer (h : Alike p j j') {c : Call} (hc : c.Fits) : j.answer p c = j'.answer p c := by
  cases c with
  | replay => rw [Journal.answer, Journal.answer, replay, replay, h.entries]
  | load => rw [Journal.answer, Journal.answer, load, load, h.snapshots]
  | reopen => rfl
  | write w =>
    cases w with
    | append stamp seq payload => rw [Journal.answer, Journal.answer, h.append]
    | save stamp seq payload =>
      by_cases hid : p = ""
      · subst hid
        rfl
      · rw [Journal.answer, Journal.answer, save_eq hid, save_eq hid]
        rfl
    | prune below =>
      have hbelow : ∀ {t t' : Table}, t.inRange (.ofId p) = t'.inRange (.ofId p) →
          t.inRange (.below p below) = t'.inRange (.below p below) := by
        intro t t' heq
        rw [Table.inRange_below t p hc, Table.inRange_below t' p hc, heq]
      simp only [Journal.answer, Journal.prune, hbelow h.entries, hbelow h.snapshots]

theorem put (h : Alike p j j') (hj : j.Sorted) (hj' : j'.Sorted) (kind : RecordKind) {seq : Nat}
    (hseq : seq < UInt64.size) (text : String) : Alike p (j.put kind p seq text) (j'.put kind p seq text) := by
  have hin : (KeyRange.ofId p).contains (recordKey p seq) = true :=
    (contains_ofId_recordKey hseq).mpr (Or.inl rfl)
  cases kind with
  | entry =>
    refine ⟨?_, h.snapshots⟩
    rw [Journal.put, Journal.put, Table.inRange_insert_inside hj.entries hin,
      Table.inRange_insert_inside hj'.entries hin, h.entries]
  | snapshot =>
    refine ⟨h.entries, ?_⟩
    rw [Journal.put, Journal.put, Table.inRange_insert_inside hj.snapshots hin,
      Table.inRange_insert_inside hj'.snapshots hin, h.snapshots]

theorem call (h : Alike p j j') (hj : j.Sorted) (hj' : j'.Sorted) {c : Call} (hc : c.Fits) :
    Alike p (j.call p c) (j'.call p c) := by
  cases c with
  | replay | load | reopen => exact h
  | write w =>
    cases w with
    | append stamp seq payload =>
      have hsame := h.append stamp seq payload
      rw [Journal.call, Journal.call, write, write, append_put j, append_put j']
      cases ha : j.append stamp p seq payload with
      | error e =>
        cases ha' : j'.append stamp p seq payload with
        | error e' => exact h
        | ok => simp [ha, ha', Except.map] at hsame
      | ok =>
        cases ha' : j'.append stamp p seq payload with
        | error e' => simp [ha, ha', Except.map] at hsame
        | ok => exact h.put hj hj' .entry hc.2 _
    | save stamp seq payload =>
      by_cases hid : p = ""
      · subst hid
        exact h
      · rw [Journal.call, Journal.call, write, write, save_eq hid, save_eq hid]
        exact h.put hj hj' .snapshot hc.2 _
    | prune below =>
      refine ⟨?_, ?_⟩
      · simp only [Journal.call, write, prune, Table.inRange_removeRange, h.entries]
      · simp only [Journal.call, write, prune, Table.inRange_removeRange, h.snapshots]

/-- Calls that are of no concern to `p` make no difference to the answers under `p`. -/
theorem answersTo (h : Alike p j j') (hj : j.Sorted) (hj' : j'.Sorted) {calls : List (String × Call)}
    (hfits : ∀ x ∈ calls, x.2.Fits) (hothers : ∀ x ∈ calls, x.1 ≠ p → x.2.Clear p x.1) :
    j.answersTo p calls = j'.answersTo p (calls.filter (·.1 = p)) := by
  induction calls generalizing j j' with
  | nil => rfl
  | cons x rest ih =>
    obtain ⟨id, c⟩ := x
    obtain ⟨hc, hrest⟩ := List.forall_mem_cons.mp hfits
    obtain ⟨hid, hids⟩ := List.forall_mem_cons.mp hothers
    by_cases hp : id = p
    · subst hp
      have hstep := ih (h.call hj hj' hc) (hj.call id hc) (hj'.call id hc) hrest hids
      simp only [Journal.answersTo, List.filter_cons, decide_true, if_true, h.answer hc, hstep]
    · have hq : Alike p (j.call id c) j' :=
        ⟨(call_clear j (hid hp) hc).entries.trans h.entries,
          (call_clear j (hid hp) hc).snapshots.trans h.snapshots⟩
      have hstep := ih hq (hj.call id hc) hj' hrest hids
      simp only [Journal.answersTo, List.filter_cons, hp, decide_false, if_false, hstep]
      rfl

end Alike

end Journal
end HealthSignal
