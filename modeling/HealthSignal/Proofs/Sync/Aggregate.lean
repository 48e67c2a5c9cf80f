import HealthSignal.Sync.Relay
import Mathlib.Data.List.Induction

/-! What an aggregate knows after any news, key by key, and when the news make it decide on a call. -/
namespace HealthSignal

/-- Changing what is listed under one key changes what is found under that key alone. -/
theorem lookup_modify {β : Type} (l : List (String × β)) (key : String) (f : β → β) (k : String) :
    (l.map fun (k, b) => if k = key then (k, f b) else (k, b)).lookup k =
      if k = key then (l.lookup k).map f else l.lookup k := by
  induction l with
  | nil => simp
  | cons entry rest ih =>
    obtain ⟨k', b⟩ := entry
    rw [List.map_cons]
    by_cases hk : k = k'
    · subst hk
      by_cases hkey : k = key <;> simp [hkey]
    · have hbeq : (k == k') = false := by simpa using hk
      by_cases hkey : k' = key
      · subst hkey
        simp only [if_true, List.lookup_cons, hbeq, ih]
      · simp only [if_neg hkey, List.lookup_cons, hbeq, ih]

def Slot.after : Slot → Option Status → Slot
  | .terminated, _ => .terminated
  | _, some s => .reported s
  | _, none => .terminated

namespace Slot

theorem foldl_after_terminated (news : List (Option Status)) : news.foldl after .terminated = .terminated := by
  induction news with
  | nil => rfl
  | cons _ rest ih => exact ih

theorem foldl_after_of_mem {news : List (Option Status)} (h : none ∈ news) (slot : Slot) :
    news.foldl after slot = .terminated := by
  induction news generalizing slot with
  | nil => simp at h
  | cons x rest ih =>
    rw [List.foldl_cons]
    cases x with
    | none => cases slot <;> exact foldl_after_terminated rest
    | some s => exact ih (by simpa using h) _

theorem mem_of_foldl_after {news : List (Option Status)} {slot : Slot} (h : news.foldl after slot = .terminated) :
    slot = .terminated ∨ none ∈ news := by
  induction news generalizing slot with
  | nil => exact Or.inl h
  | cons x rest ih =>
    cases x with
    | none => simp
    | some s =>
      obtain hslot | hmem := ih h
      · refine Or.inl ?_
        cases slot <;> simp_all [after]
      · exact Or.inr (List.mem_cons_of_mem _ hmem)

theorem foldl_after_statuses {statuses : List Status} {s : Status} (h : statuses.getLast? = some s) :
    (statuses.map some).foldl after .pending = .reported s := by
  obtain ⟨init, rfl⟩ := List.getLast?_eq_some_iff.mp h
  rw [List.map_append, List.foldl_append]
  cases hslot : (init.map some).foldl after .pending with
  | terminated =>
    obtain hpending | hmem := mem_of_foldl_after hslot
    · simp at hpending
    · simp at hmem
  | pending | reported => rfl

end Slot

def newsOf (key : String) (news : List Update) : List (Option Status) :=
  (news.filter (·.key = key)).map (·.status)

namespace Aggregate
variable {a : Aggregate} {u : Update}

def hear (a : Aggregate) (u : Update) : Aggregate × Option Decision :=
  match u.status with
  | some s => a.report u.key s
  | none => a.terminate u.key

theorem slot?_setSlot (a : Aggregate) (key : String) (slot : Slot) (k : String) :
    (a.setSlot key slot).slot? k = if k = key then (a.slot? k).map fun _ => slot else a.slot? k :=
  lookup_modify a.slots key (fun _ => slot) k

theorem slots_decide (a : Aggregate) : a.decide.1.slots = a.slots := by
  unfold decide
  split <;> rfl

theorem slot?_decide (a : Aggregate) (k : String) : a.decide.1.slot? k = a.slot? k := by
  rw [slot?, slots_decide]
  rfl

/-- News of an unknown probe and reports of one that has ended change nothing; others are noted and decided
on. -/
theorem hear_cases (a : Aggregate) (u : Update) :
    (a.slot? u.key = none ∨ a.slot? u.key = some .terminated ∧ u.status ≠ none) ∧ a.hear u = (a, none) ∨
    ∃ slot, a.slot? u.key = some slot ∧ a.hear u = (a.setSlot u.key (slot.after u.status)).decide := by
  unfold hear report terminate
  cases hs : a.slot? u.key with
  | none => cases u.status <;> simp
  | some slot => cases u.status <;> cases slot <;> simp [Slot.after]

theorem slot?_hear (a : Aggregate) (u : Update) (k : String) :
    (a.hear u).1.slot? k = if k = u.key then (a.slot? k).map (·.after u.status) else a.slot? k := by
  obtain ⟨hold, heq⟩ | ⟨slot, hs, heq⟩ := a.hear_cases u
  · rw [heq]
    split
    · next hk =>
      subst hk
      obtain hold | ⟨hold, -⟩ := hold <;> simp [hold, Slot.after]
    · rfl
  · rw [heq, slot?_decide, slot?_setSlot]
    split
    · next hk => simp [hk, hs]
    · rfl

def Coherent (a : Aggregate) : Prop := ∀ entry ∈ a.slots, a.slot? entry.1 = some entry.2

theorem Coherent.setSlot (h : a.Coherent) (key : String) (slot : Slot) :
    (a.setSlot key slot).Coherent := by
  rintro ⟨k, s⟩ hmem
  obtain ⟨⟨k', s'⟩, hmem, heq⟩ := List.mem_map.mp hmem
  have hlookup := h _ hmem
  simp only at heq hlookup
  rw [slot?_setSlot]
  by_cases hk : k' = key
  · rw [if_pos hk] at heq
    obtain ⟨rfl, rfl⟩ := Prod.mk.inj heq
    simp [hk ▸ hlookup, hk]
  · rw [if_neg hk] at heq
    obtain ⟨rfl, rfl⟩ := Prod.mk.inj heq
    simpa [hk] using hlookup

theorem Coherent.hear (h : a.Coherent) (u : Update) : (a.hear u).1.Coherent := by
  obtain ⟨-, heq⟩ | ⟨slot, -, heq⟩ := a.hear_cases u
  · rwa [heq]
  · rw [heq]
    unfold Coherent
    rw [slots_decide]
    intro entry hmem
    rw [slot?_decide]
    exact h.setSlot u.key _ entry hmem

theorem mem_of_slot? {k : String} {slot : Slot} (h : a.slot? k = some slot) : (k, slot) ∈ a.slots := by
  obtain ⟨l, r, heq, -⟩ := List.lookup_eq_some_iff.mp h
  rw [heq]
  simp

theorem Coherent.isUp_iff (h : a.Coherent) :
    a.isUp = true ↔ a.slots ≠ [] ∧ ∀ k slot, a.slot? k = some slot → slot.isUp = true := by
  rw [isUp, Bool.and_eq_true, List.all_eq_true, Bool.not_eq_true', List.isEmpty_eq_false_iff]
  exact and_congr_right fun _ => ⟨fun hall k slot hs => hall _ (mem_of_slot? hs),
    fun hall entry hmem => hall _ _ (h entry hmem)⟩

theorem Coherent.allTerminated_iff (h : a.Coherent) :
    a.allTerminated = true ↔ ∀ k slot, a.slot? k = some slot → slot = .terminated := by
  rw [allTerminated, List.all_eq_true]
  simp only [beq_iff_eq]
  exact ⟨fun hall k slot hs => hall _ (mem_of_slot? hs), fun hall entry hmem => hall _ _ (h entry hmem)⟩

/-- What was shown last is what holds now, once anything was shown; the end of a probe was. -/
def Told (a : Aggregate) : Prop :=
  a.shown = some a.isUp ∨ a.shown = none ∧ ∀ k, a.slot? k ≠ some .terminated

theorem shown_decide (a : Aggregate) : a.decide.1.shown = some a.decide.1.isUp := by
  rw [isUp, slots_decide]
  unfold decide
  split
  · assumption
  · rfl

theorem Told.hear (h : a.Told) (hk : a.slot? u.key ≠ none) :
    (a.hear u).1.shown = some (a.hear u).1.isUp := by
  obtain ⟨hold, heq⟩ | ⟨slot, -, heq⟩ := a.hear_cases u
  · rw [heq]
    obtain hs | ⟨-, hnot⟩ := h
    · exact hs
    · obtain hold | ⟨hold, -⟩ := hold
      · exact absurd hold hk
      · exact absurd hold (hnot _)
  · rw [heq]
    exact shown_decide _

theorem hear_decision (a : Aggregate) (u : Update) :
    (a.hear u).2 = none ∧ (a.hear u).1.shown = a.shown ∨
    ∃ d, (a.hear u).2 = some d ∧ (a.hear u).1.shown = some d.isGo ∧ a.shown ≠ some d.isGo := by
  obtain ⟨-, heq⟩ | ⟨slot, -, heq⟩ := a.hear_cases u
  · exact Or.inl (by rw [heq]; exact ⟨rfl, rfl⟩)
  · rw [heq]
    have hshown : (a.setSlot u.key (slot.after u.status)).shown = a.shown := rfl
    unfold decide
    split
    · exact Or.inl ⟨rfl, hshown⟩
    · next hne =>
      rw [hshown] at hne
      cases hup : (a.setSlot u.key (slot.after u.status)).isUp <;>
        exact Or.inr ⟨_, rfl, rfl, by simpa [hup, Decision.isGo] using hne⟩

theorem keys_insertKey (key k : String) (slots : List (String × Slot)) :
    k ∈ (insertKey key slots).map (·.1) ↔ k = key ∨ k ∈ slots.map (·.1) := by
  induction slots with
  | nil => simp [insertKey]
  | cons entry rest ih =>
    obtain ⟨k', s⟩ := entry
    unfold insertKey
    split
    · next heq => simp [heq]
    · split
      · simp
      · simp only [List.map_cons, List.mem_cons, ih]
        exact or_left_comm

theorem pending_insertKey (key : String) {slots : List (String × Slot)}
    (h : ∀ entry ∈ slots, entry.2 = .pending) : ∀ entry ∈ insertKey key slots, entry.2 = .pending := by
  induction slots with
  | nil => simp [insertKey]
  | cons entry rest ih =>
    obtain ⟨k', s⟩ := entry
    obtain ⟨hs, hrest⟩ := List.forall_mem_cons.mp h
    unfold insertKey
    split
    · exact h
    · split
      · exact List.forall_mem_cons.mpr ⟨rfl, h⟩
      · exact List.forall_mem_cons.mpr ⟨hs, ih hrest⟩

theorem slots_new (keys : List String) : (∀ entry ∈ (new keys).slots, entry.2 = .pending) ∧
    ∀ k, k ∈ (new keys).slots.map (·.1) ↔ k ∈ keys := by
  have hfold : ∀ slots : List (String × Slot), (∀ entry ∈ slots, entry.2 = .pending) →
      (∀ entry ∈ keys.foldl (fun slots key => insertKey key slots) slots, entry.2 = .pending) ∧
      ∀ k, k ∈ (keys.foldl (fun slots key => insertKey key slots) slots).map (·.1) ↔
        k ∈ keys ∨ k ∈ slots.map (·.1) := by
    induction keys with
    | nil => exact fun slots h => ⟨h, by simp⟩
    | cons key keys ih =>
      intro slots h
      obtain ⟨hp, hk⟩ := ih _ (pending_insertKey key h)
      refine ⟨hp, fun k => ?_⟩
      rw [List.foldl_cons, hk, keys_insertKey, List.mem_cons]
      exact or_left_comm.trans or_assoc.symm
  obtain ⟨hp, hk⟩ := hfold [] (by simp)
  exact ⟨hp, fun k => (hk k).trans (by simp)⟩

theorem slot?_new (keys : List String) (k : String) :
    (new keys).slot? k = if k ∈ keys then some .pending else none := by
  obtain ⟨hp, hk⟩ := slots_new keys
  split
  · next hmem =>
    obtain ⟨slot, hs⟩ : ∃ slot, (new keys).slot? k = some slot := by
      rw [← Option.isSome_iff_exists, ← Option.ne_none_iff_isSome]
      intro hnone
      obtain ⟨entry, he, rfl⟩ := List.mem_map.mp ((hk k).mpr hmem)
      simpa using List.lookup_eq_none_iff.mp hnone entry he
    have hpending : slot = .pending := hp _ (mem_of_slot? hs)
    rw [hs, hpending]
  · next hmem =>
    refine List.lookup_eq_none_iff.mpr fun entry he => ?_
    have hne : entry.1 ≠ k := fun heq => hmem ((hk k).mp (heq ▸ List.mem_map_of_mem he))
    simpa using hne.symm

theorem Coherent.new (keys : List String) : (Aggregate.new keys).Coherent := by
  intro entry hmem
  obtain ⟨hp, hk⟩ := slots_new keys
  rw [slot?_new, if_pos ((hk _).mp (List.mem_map_of_mem hmem)), hp entry hmem]

theorem Told.new (keys : List String) : (Aggregate.new keys).Told :=
  Or.inr ⟨rfl, fun k => by rw [slot?_new]; split <;> simp⟩

def ofNews (keys : List String) (news : List Update) : Aggregate :=
  news.foldl (fun a u => (a.hear u).1) (new keys)

variable {keys : List String} {news before : List Update}

theorem slot?_foldl (news : List Update) (a : Aggregate) (k : String) :
    (news.foldl (fun a u => (a.hear u).1) a).slot? k =
      (a.slot? k).map fun slot => (newsOf k news).foldl .after slot := by
  induction news generalizing a with
  | nil => simp [newsOf]
  | cons u rest ih =>
    rw [List.foldl_cons, ih, slot?_hear]
    by_cases hk : k = u.key
    · subst hk
      cases a.slot? u.key <;> simp [newsOf]
    · simp [newsOf, hk, Ne.symm hk]

theorem slot?_ofNews (keys : List String) (news : List Update) (k : String) :
    (ofNews keys news).slot? k =
      if k ∈ keys then some ((newsOf k news).foldl .after .pending) else none := by
  rw [ofNews, slot?_foldl, slot?_new]
  split <;> rfl

theorem Coherent.ofNews (keys : List String) (news : List Update) :
    (Aggregate.ofNews keys news).Coherent := by
  unfold Aggregate.ofNews
  generalize ha : Aggregate.new keys = a
  have h : a.Coherent := ha ▸ .new keys
  clear ha
  induction news generalizing a with
  | nil => exact h
  | cons u rest ih => exact ih _ (h.hear u)

theorem ofNews_concat (keys : List String) (news : List Update) (u : Update) :
    ofNews keys (news ++ [u]) = ((ofNews keys news).hear u).1 := by
  simp [ofNews]

/-- News of an unknown probe and reports of one that has ended are passed over. -/
theorem hear_ignored (h : u.key ∉ keys ∨ none ∈ newsOf u.key before ∧ u.status ≠ none) :
    (ofNews keys before).hear u = (ofNews keys before, none) := by
  have hslot := slot?_ofNews keys before u.key
  obtain hunknown | ⟨hend, hstatus⟩ := h
  · rw [if_neg hunknown] at hslot
    unfold hear report terminate
    cases u.status <;> simp [hslot]
  · obtain ⟨s, hs⟩ := Option.ne_none_iff_exists'.mp hstatus
    rw [Slot.foldl_after_of_mem hend] at hslot
    unfold hear report
    split at hslot <;> simp [hs, hslot]

/-- Nothing was shown until news of a known probe came; since then what holds is shown. -/
theorem shown_cases (keys : List String) (news : List Update) :
    (∀ v ∈ news, v.key ∉ keys) ∧ ofNews keys news = new keys ∨
    (∃ v ∈ news, v.key ∈ keys) ∧ (ofNews keys news).shown = some (ofNews keys news).isUp := by
  induction news using List.reverseRecOn with
  | nil => exact Or.inl ⟨by simp, rfl⟩
  | append_singleton news u ih =>
    rw [ofNews_concat]
    by_cases hkey : u.key ∈ keys
    · have htold : (ofNews keys news).Told := by
        obtain ⟨-, heq⟩ | ⟨-, hshown⟩ := ih
        · exact heq ▸ .new keys
        · exact Or.inl hshown
      exact Or.inr ⟨⟨u, by simp, hkey⟩, htold.hear (by simp [slot?_ofNews, hkey])⟩
    · rw [hear_ignored (Or.inl hkey)]
      obtain ⟨hnone, heq⟩ | ⟨⟨v, hv, hvkey⟩, hshown⟩ := ih
      · refine Or.inl ⟨fun v hv => ?_, heq⟩
        obtain hv | hv := List.mem_append.mp hv
        · exact hnone v hv
        · exact List.mem_singleton.mp hv ▸ hkey
      · exact Or.inr ⟨⟨v, List.mem_append_left _ hv, hvkey⟩, hshown⟩

/-- After news of known probes, and of at least one, what was shown last is what holds. -/
theorem shown_ofNews (hknown : ∀ u ∈ news, u.key ∈ keys) (hne : news ≠ []) :
    (ofNews keys news).shown = some (ofNews keys news).isUp := by
  obtain ⟨hnone, -⟩ | ⟨-, hshown⟩ := shown_cases keys news
  · obtain ⟨u, hu⟩ := List.exists_mem_of_ne_nil _ hne
    exact absurd (hknown u hu) (hnone u hu)
  · exact hshown

end Aggregate
end HealthSignal
