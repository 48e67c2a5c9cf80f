import HealthSignal.Proofs.Sync.Transcript
import HealthSignal.Proofs.Text.Utf8

/-! The decisions of an aggregate read off the news it heard: what holds is settled by the news of each probe on its
own, and there is a decision whenever it changes. -/
namespace HealthSignal

def StandsUp (key : String) (news : List Update) : Prop :=
  none ∉ newsOf key news ∧ ∃ s : Status, (newsOf key news).getLast? = some (some s) ∧ s.up = true

def wordOn (key : String) (news : List Update) : String :=
  if none ∈ newsOf key news then "probe terminated"
  else match (newsOf key news).getLast? with
    | some (some s) => s.message
    | _ => "waiting for first status"

/-- News of a known probe that had not ended. -/
def Counts (keys : List String) (before : List Update) (u : Update) : Prop :=
  u.key ∈ keys ∧ none ∉ newsOf u.key before

def Opens (keys : List String) (before : List Update) (u : Update) : Prop :=
  Counts keys before u ∧ ∀ earlier v later, before = earlier ++ v :: later → ¬ Counts keys earlier v

section News
variable {keys : List String} {key : String} {before news : List Update} {u : Update}

theorem newsOf_eq_nil (h : ∀ v ∈ news, v.key ≠ key) : newsOf key news = [] := by
  simpa [newsOf] using h

theorem opens_iff : Opens keys before u ↔ u.key ∈ keys ∧ ∀ v ∈ before, v.key ∉ keys := by
  constructor
  · rintro ⟨⟨hknown, -⟩, hfirst⟩
    refine ⟨hknown, fun v hv hkey => ?_⟩
    -- The first of the news of a known probe would have counted already.
    obtain ⟨w, hw⟩ := Option.isSome_iff_exists.mp
      (List.find?_isSome.mpr ⟨v, hv, decide_eq_true hkey⟩ : (before.find? (decide <| ·.key ∈ keys)).isSome)
    obtain ⟨hwkey, earlier, later, rfl, hnone⟩ := List.find?_eq_some_iff_append.mp hw
    have hwkey : w.key ∈ keys := of_decide_eq_true hwkey
    refine hfirst earlier w later rfl ⟨hwkey, ?_⟩
    rw [newsOf_eq_nil fun x hx heq => ?_]
    · simp
    · have hx := hnone x hx
      simp [heq, hwkey] at hx
  · rintro ⟨hknown, hunknown⟩
    refine ⟨⟨hknown, ?_⟩, ?_⟩
    · rw [newsOf_eq_nil fun v hv heq => hunknown v hv (heq ▸ hknown)]
      simp
    · rintro earlier v later rfl ⟨hv, -⟩
      exact hunknown v (by simp) hv

end News

namespace Slot
variable {news : List (Option Status)}

theorem foldl_after_terminated_iff : news.foldl after .pending = .terminated ↔ none ∈ news := by
  refine ⟨fun h => ?_, fun h => foldl_after_of_mem h _⟩
  obtain hpending | hmem := mem_of_foldl_after h
  · simp at hpending
  · exact hmem

theorem foldl_after_of_not_mem (h : none ∉ news) :
    news = [] ∨ ∃ s, news.getLast? = some (some s) ∧ news.foldl after .pending = .reported s := by
  cases hlast : news.getLast? with
  | none => exact Or.inl (List.getLast?_eq_none_iff.mp hlast)
  | some last =>
    cases last with
    | none => exact absurd (List.mem_of_getLast? hlast) h
    | some s =>
      obtain ⟨init, rfl⟩ := List.getLast?_eq_some_iff.mp hlast
      refine Or.inr ⟨s, rfl, ?_⟩
      rw [List.foldl_append]
      cases hslot : init.foldl after .pending with
      | terminated => exact absurd (List.mem_append_left _ (foldl_after_terminated_iff.mp hslot)) h
      | pending | reported => rfl

variable {key : String} {news : List Update}

theorem isUp_foldl_after : ((newsOf key news).foldl after .pending).isUp = true ↔ StandsUp key news := by
  by_cases hend : none ∈ newsOf key news
  · simp [StandsUp, hend, foldl_after_of_mem hend, isUp]
  · obtain hnil | ⟨s, hlast, hslot⟩ := foldl_after_of_not_mem hend
    · simp [StandsUp, hnil, isUp]
    · simp [StandsUp, hend, hlast, hslot, isUp]

theorem reason_foldl_after : ((newsOf key news).foldl after .pending).reason = wordOn key news := by
  by_cases hend : none ∈ newsOf key news
  · simp [wordOn, hend, foldl_after_of_mem hend, reason]
  · obtain hnil | ⟨s, hlast, hslot⟩ := foldl_after_of_not_mem hend
    · simp [wordOn, hnil, reason]
    · simp [wordOn, hend, hlast, hslot, reason]

end Slot

namespace Aggregate
variable {keys : List String} {news before : List Update} {u : Update}

theorem sorted_insertKey (key : String) {slots : List (String × Slot)}
    (h : (slots.map (·.1)).Pairwise (Text.precedes · · = true)) :
    ((insertKey key slots).map (·.1)).Pairwise (Text.precedes · · = true) := by
  induction slots with
  | nil => exact List.pairwise_singleton _ _
  | cons entry rest ih =>
    obtain ⟨k, s⟩ := entry
    obtain ⟨hk, hrest⟩ := List.pairwise_cons.mp h
    unfold insertKey
    split
    · exact h
    · next hne =>
      split
      · next hlt =>
        refine List.pairwise_cons.mpr ⟨List.forall_mem_cons.mpr ⟨hlt, fun x hx => ?_⟩, h⟩
        exact Text.precedes_trans hlt (hk x hx)
      · next hge =>
        refine List.pairwise_cons.mpr ⟨fun x hx => ?_, ih hrest⟩
        obtain rfl | hx := (keys_insertKey key x rest).mp hx
        · cases hlt : Text.precedes k x with
          | true => rfl
          | false => exact absurd (Text.eq_of_not_precedes hlt (by simpa using hge)) hne
        · exact hk x hx

theorem sorted_new (keys : List String) :
    ((new keys).slots.map (·.1)).Pairwise (Text.precedes · · = true) := by
  have hfold : ∀ slots : List (String × Slot), (slots.map (·.1)).Pairwise (Text.precedes · · = true) →
      ((keys.foldl (fun slots key => insertKey key slots) slots).map (·.1)).Pairwise
        (Text.precedes · · = true) := by
    induction keys with
    | nil => exact fun _ h => h
    | cons key keys ih => exact fun slots h => ih _ (sorted_insertKey key h)
  exact hfold [] .nil

theorem keys_hear (a : Aggregate) (u : Update) : (a.hear u).1.slots.map (·.1) = a.slots.map (·.1) := by
  obtain ⟨-, heq⟩ | ⟨slot, -, heq⟩ := a.hear_cases u
  · rw [heq]
  · rw [heq, slots_decide, setSlot, List.map_map]
    refine List.map_congr_left fun entry _ => ?_
    simp only [Function.comp_apply]
    split <;> rfl

theorem keys_ofNews (keys : List String) (news : List Update) :
    (ofNews keys news).slots.map (·.1) = (new keys).slots.map (·.1) := by
  unfold ofNews
  generalize new keys = a
  induction news generalizing a with
  | nil => rfl
  | cons u rest ih => exact (ih _).trans (keys_hear a u)

/-- The entries of an aggregate: its keys in order, each with what the news of that key alone come to. -/
theorem slots_ofNews (keys : List String) (news : List Update) :
    ∃ order : List String, order.Pairwise (Text.precedes · · = true) ∧ (∀ k, k ∈ order ↔ k ∈ keys) ∧
      (ofNews keys news).slots = order.map fun k => (k, (newsOf k news).foldl .after .pending) := by
  refine ⟨(new keys).slots.map (·.1), sorted_new keys, (slots_new keys).2, ?_⟩
  rw [← keys_ofNews keys news, List.map_map]
  refine (List.map_id _).symm.trans (List.map_congr_left fun entry hmem => ?_)
  obtain ⟨k, slot⟩ := entry
  have hslot := Coherent.ofNews keys news _ hmem
  rw [slot?_ofNews] at hslot
  split at hslot
  · exact congrArg (k, ·) (Option.some.inj hslot).symm
  · simp at hslot

theorem isUp_ofNews : (ofNews keys news).isUp = true ↔ keys ≠ [] ∧ ∀ k ∈ keys, StandsUp k news := by
  obtain ⟨order, -, hmem, hslots⟩ := slots_ofNews keys news
  have hnil : order = [] ↔ keys = [] := by simp only [List.eq_nil_iff_forall_not_mem, hmem]
  simp only [isUp, hslots, Bool.and_eq_true, Bool.not_eq_true', List.isEmpty_eq_false_iff, ne_eq,
    List.map_eq_nil_iff, hnil, List.all_eq_true, List.forall_mem_map, Slot.isUp_foldl_after, hmem]

theorem allTerminated_ofNews : (ofNews keys news).allTerminated = true ↔ ∀ k ∈ keys, none ∈ newsOf k news := by
  obtain ⟨order, -, hmem, hslots⟩ := slots_ofNews keys news
  simp only [allTerminated, hslots, List.all_eq_true, List.forall_mem_map, beq_iff_eq,
    Slot.foldl_after_terminated_iff, hmem]

theorem describeUp_ofNews (keys : List String) (news : List Update) :
    ∃ order : List String, order.Pairwise (Text.precedes · · = true) ∧ (∀ k, k ∈ order ↔ k ∈ keys) ∧
      (ofNews keys news).describeUp = String.intercalate "; " (order.map fun k => k ++ ": " ++ wordOn k news) := by
  obtain ⟨order, hsorted, hmem, hslots⟩ := slots_ofNews keys news
  refine ⟨order, hsorted, hmem, ?_⟩
  simp only [describeUp, hslots, List.map_map, Function.comp_def, line, Slot.reason_foldl_after]

theorem describeDown_ofNews (hdown : (ofNews keys news).isUp = false) (hne : keys ≠ []) :
    ∃ k ∈ keys, ¬ StandsUp k news ∧
      (∀ k' ∈ keys, ¬ StandsUp k' news → k' = k ∨ Text.precedes k k' = true) ∧
      (ofNews keys news).describeDown = k ++ ": " ++ wordOn k news := by
  obtain ⟨order, hsorted, hmem, hslots⟩ := slots_ofNews keys news
  obtain ⟨k₀, hk₀, hdown₀⟩ : ∃ k ∈ keys, ¬ StandsUp k news := by
    have hnot := mt isUp_ofNews.mpr (Bool.eq_false_iff.mp hdown)
    by_contra hall
    exact hnot ⟨hne, fun k hk => by_contra fun hstands => hall ⟨k, hk, hstands⟩⟩
  obtain ⟨k, hfind⟩ : ∃ k, order.find? (fun k => !((newsOf k news).foldl .after .pending : Slot).isUp) = some k := by
    refine Option.isSome_iff_exists.mp (List.find?_isSome.mpr ⟨k₀, (hmem k₀).mpr hk₀, ?_⟩)
    simpa using mt Slot.isUp_foldl_after.mp hdown₀
  obtain ⟨hk, earlier, later, horder, hearlier⟩ := List.find?_eq_some_iff_append.mp hfind
  have hkmem : k ∈ keys := (hmem k).mp (horder ▸ by simp)
  refine ⟨k, hkmem, fun hstands => ?_, fun k' hk' hdown' => ?_, ?_⟩
  · simp [Slot.isUp_foldl_after.mpr hstands] at hk
  · have hk' := (hmem k').mpr hk'
    rw [horder, List.mem_append, List.mem_cons] at hk'
    obtain hk' | rfl | hk' := hk'
    · have hup := hearlier k' hk'
      exact absurd (Slot.isUp_foldl_after.mp (by simpa using hup)) hdown'
    · exact Or.inl rfl
    · rw [horder] at hsorted
      exact Or.inr ((List.pairwise_cons.mp (List.pairwise_append.mp hsorted).2.1).1 k' hk')
  · rw [describeDown, hslots, List.find?_map]
    simp only [Function.comp_def, hfind, Option.map_some, line, Slot.reason_foldl_after]

theorem shown_new (keys : List String) : (new keys).shown = none := rfl

theorem isUp_new (keys : List String) : (new keys).isUp = false := by
  rw [← Bool.not_eq_true, show new keys = ofNews keys [] from rfl, isUp_ofNews]
  rintro ⟨hne, hall⟩
  obtain ⟨k, hk⟩ := List.exists_mem_of_ne_nil _ hne
  obtain ⟨-, s, hlast, -⟩ := hall k hk
  simp [newsOf] at hlast

/-- There is a decision at the first news that count, and whenever what holds changes. -/
theorem decision_iff : ((ofNews keys before).hear u).2 ≠ none ↔
    Opens keys before u ∨ (ofNews keys (before ++ [u])).isUp ≠ (ofNews keys before).isUp := by
  by_cases hkey : u.key ∈ keys
  · obtain ⟨hnone, -⟩ | ⟨-, hafter⟩ := shown_cases keys (before ++ [u])
    · exact absurd hkey (hnone u (by simp))
    have hdecides : ((ofNews keys before).hear u).2 ≠ none ↔
        (ofNews keys before).shown ≠ some (ofNews keys (before ++ [u])).isUp := by
      rw [← hafter, ofNews_concat]
      obtain ⟨hnone, hshown⟩ | ⟨d, hd, hshown, hne⟩ := (ofNews keys before).hear_decision u
      · simp [hnone, hshown]
      · simp [hd, hshown, hne]
    rw [hdecides, opens_iff]
    obtain ⟨hnone, heq⟩ | ⟨⟨v, hv, hvkey⟩, hbefore⟩ := shown_cases keys before
    · exact iff_of_true (by simp [heq, shown_new]) (Or.inl ⟨hkey, hnone⟩)
    · rw [hbefore]
      constructor
      · exact fun hne => Or.inr fun heq => hne (congrArg some heq.symm)
      · rintro (⟨-, hnone⟩ | hne)
        · exact absurd hvkey (hnone v hv)
        · exact fun heq => hne (Option.some.inj heq).symm
  · simp [opens_iff, hkey, ofNews_concat, hear_ignored (Or.inl hkey)]

theorem decide_eq_some {a : Aggregate} {d : Decision} (h : a.decide.2 = some d) :
    d = if a.decide.1.isUp then .go a.decide.1.describeUp else .stop a.decide.1.describeDown := by
  have hup : a.decide.1.isUp = a.isUp := by rw [isUp, slots_decide, ← isUp]
  rw [hup, describeUp, describeDown, slots_decide, ← describeUp, ← describeDown]
  unfold decide at h
  split at h
  · simp at h
  · exact (Option.some.inj h).symm

theorem hear_eq_some {d : Decision} (h : ((ofNews keys before).hear u).2 = some d) :
    u.key ∈ keys ∧ d = if (ofNews keys (before ++ [u])).isUp then .go (ofNews keys (before ++ [u])).describeUp
      else .stop (ofNews keys (before ++ [u])).describeDown := by
  refine ⟨by_contra fun hkey => ?_, ?_⟩
  · simp [hear_ignored (Or.inl hkey)] at h
  · rw [ofNews_concat]
    obtain ⟨-, heq⟩ | ⟨slot, -, heq⟩ := (ofNews keys before).hear_cases u
    · simp [heq] at h
    · rw [heq] at h ⊢
      exact decide_eq_some h

def decisions (keys : List String) (news : List Update) : List Decision :=
  (Relay.mirror (some (.new keys)) news).2

theorem decisions_concat (keys : List String) (news : List Update) (u : Update) :
    decisions keys (news ++ [u]) = decisions keys news ++ ((ofNews keys news).hear u).2.toList := by
  rw [decisions, Relay.mirror_concat, (Relay.mirror_some keys news).1]
  rfl

theorem decisions_prefix (keys : List String) (news more : List Update) :
    decisions keys news <+: decisions keys (news ++ more) := by
  induction more using List.reverseRecOn with
  | nil => simp
  | append_singleton more u ih =>
    rw [← List.append_assoc, decisions_concat]
    exact ih.trans (List.prefix_append _ _)

theorem decisions_alternate (keys : List String) (news : List Update) :
    (decisions keys news).IsChain fun x y => x.isGo ≠ y.isGo :=
  (Relay.mirror_some keys news).2.2

theorem isUp_iff_last : (ofNews keys news).isUp = true ↔
    ∃ d, (decisions keys news).getLast? = some d ∧ d.isGo = true := by
  have hlast : (ofNews keys news).shown = (decisions keys news).getLast?.map Decision.isGo :=
    (Relay.mirror_some keys news).2.1
  rw [← Option.map_eq_some_iff, ← hlast]
  obtain ⟨-, heq⟩ | ⟨-, hshown⟩ := shown_cases keys news
  · simp [heq, isUp_new, shown_new]
  · simp [hshown]

/-- What holds ceases to hold with one decision to lower the signal; the next one raises it. -/
theorem decisions_drop (hup : (ofNews keys before).isUp = true)
    (hdown : (ofNews keys (before ++ [u])).isUp = false) (more : List Update) :
    ∃ reason rest, ((ofNews keys before).hear u).2 = some (.stop reason) ∧
      decisions keys (before ++ u :: more) = decisions keys before ++ .stop reason :: rest ∧
      ∀ d, rest.head? = some d → d.isGo = true := by
  have hchange : (ofNews keys (before ++ [u])).isUp ≠ (ofNews keys before).isUp := by simp [hup, hdown]
  obtain ⟨d, hd⟩ := Option.ne_none_iff_exists'.mp (decision_iff.mpr (Or.inr hchange))
  obtain ⟨-, rfl⟩ := hear_eq_some hd
  rw [hdown] at hd
  obtain ⟨rest, hrest⟩ := decisions_prefix keys (before ++ [u]) more
  rw [decisions_concat, hd] at hrest
  simp only [Option.toList_some, List.append_assoc, List.singleton_append] at hrest
  refine ⟨_, rest, hd, hrest.symm, fun d hhead => ?_⟩
  have hchain := decisions_alternate keys (before ++ u :: more)
  rw [← hrest] at hchain
  obtain ⟨tail, rfl⟩ := List.head?_eq_some_iff.mp hhead
  have hne := (List.isChain_cons_cons.mp (List.isChain_append.mp hchain).2.1).1
  simpa [Decision.isGo] using hne

/-- What the news of each probe come to is all that counts, however they are mixed. A decision is made at the first
news that count and at every change of what holds, so decisions go up and down in turn, and each says why. -/
theorem decides_on_change (keys : List String) :
    (∀ news,
      ((ofNews keys news).isUp = true ↔ keys ≠ [] ∧ ∀ k ∈ keys, StandsUp k news) ∧
      ((ofNews keys news).allTerminated = true ↔ ∀ k ∈ keys, none ∈ newsOf k news) ∧
      (∀ other, (∀ k ∈ keys, newsOf k other = newsOf k news) →
        (ofNews keys other).isUp = (ofNews keys news).isUp ∧
        (ofNews keys other).allTerminated = (ofNews keys news).allTerminated) ∧
      (decisions keys news).IsChain (fun x y => x.isGo ≠ y.isGo) ∧
      ((ofNews keys news).isUp = true ↔ ∃ d, (decisions keys news).getLast? = some d ∧ d.isGo = true)) ∧
    ∀ before u,
      (((ofNews keys before).hear u).2 ≠ none ↔
        Opens keys before u ∨ (ofNews keys (before ++ [u])).isUp ≠ (ofNews keys before).isUp) ∧
      (u.key ∉ keys ∨ none ∈ newsOf u.key before ∧ u.status ≠ none →
        (ofNews keys before).hear u = (ofNews keys before, none)) ∧
      ((ofNews keys before).isUp = true → (ofNews keys (before ++ [u])).isUp = false →
        ∀ more, ∃ reason rest, ((ofNews keys before).hear u).2 = some (.stop reason) ∧
          decisions keys (before ++ u :: more) = decisions keys before ++ .stop reason :: rest ∧
          ∀ d, rest.head? = some d → d.isGo = true) ∧
      (∀ text, ((ofNews keys before).hear u).2 = some (.go text) →
        ∃ order : List String, order.Pairwise (Text.precedes · · = true) ∧ (∀ k, k ∈ order ↔ k ∈ keys) ∧
          (∀ k ∈ order, StandsUp k (before ++ [u])) ∧
          text = String.intercalate "; " (order.map fun k => k ++ ": " ++ wordOn k (before ++ [u]))) ∧
      (∀ text, ((ofNews keys before).hear u).2 = some (.stop text) →
        ∃ k ∈ keys, ¬ StandsUp k (before ++ [u]) ∧
          (∀ k' ∈ keys, ¬ StandsUp k' (before ++ [u]) → k' = k ∨ Text.precedes k k' = true) ∧
          text = k ++ ": " ++ wordOn k (before ++ [u])) := by
  refine ⟨fun news => ⟨isUp_ofNews, allTerminated_ofNews, fun other hsame => ?_, decisions_alternate keys news,
    isUp_iff_last⟩, fun before u => ⟨decision_iff, hear_ignored, decisions_drop, fun text hd => ?_,
    fun text hd => ?_⟩⟩
  · have hstands : ∀ k ∈ keys, (StandsUp k other ↔ StandsUp k news) := fun k hk => by
      rw [StandsUp, hsame k hk, ← StandsUp]
    have hended : ∀ k ∈ keys, (none ∈ newsOf k other ↔ none ∈ newsOf k news) := fun k hk => by rw [hsame k hk]
    constructor <;> rw [Bool.eq_iff_iff]
    · simp only [isUp_ofNews, forall₂_congr hstands]
    · simp only [allTerminated_ofNews, forall₂_congr hended]
  · obtain ⟨-, heq⟩ := hear_eq_some hd
    split at heq
    · next hup =>
      obtain ⟨order, hsorted, hmem, htext⟩ := describeUp_ofNews keys (before ++ [u])
      refine ⟨order, hsorted, hmem, fun k hk => (isUp_ofNews.mp hup).2 k ((hmem k).mp hk), ?_⟩
      exact (Decision.go.inj heq).trans htext
    · simp at heq
  · obtain ⟨hkey, heq⟩ := hear_eq_some hd
    split at heq
    · simp at heq
    · next hdown =>
      rw [Decision.stop.inj heq]
      exact describeDown_ofNews (by simpa using hdown) (List.ne_nil_of_mem hkey)

example : decisions ["b", "a"] [⟨"b", some (.good "there")⟩, ⟨"c", some (.bad "lost")⟩,
    ⟨"a", some (.good "here")⟩, ⟨"b", none⟩, ⟨"b", some (.good "there")⟩] =
    [.stop "a: waiting for first status", .go "a: here; b: there", .stop "b: probe terminated"] := by
  decide

end Aggregate
end HealthSignal
