import HealthSignal.Proofs.Sync.Unfolding

/-! The calls of a component, over all of its runs. However a run ends, its last call lowers the signal. -/
namespace HealthSignal

namespace Episode
variable {s : Assembly} {c : Carrier} {e : Episode} {older : List Episode} {ds : List Decision}
  {aggregated : Bool}

def received (s : Assembly) (e : Episode) : List Status :=
  e.made.flatMap fun (key, id) => (s.probe? key).elim [] (·.hub.received id)

/-- Calls that follow what the probes of a run say: for a single probe one call for each status that was
delivered, from the first on, else up and down in turn. -/
structure Shows (s : Assembly) (aggregated : Bool) (e : Episode) (ds : List Decision) : Prop where
  single : aggregated = false → e.made.length ≤ 1 ∧ ds = ((e.received s).take ds.length).map Status.decision
  aggregate : aggregated = true → ds.IsChain fun x y => x.isGo ≠ y.isGo

/-- A run that is over made calls of which only the last may have failed, and one more to lower the signal. -/
def Over (s : Assembly) (aggregated : Bool) (e : Episode) : Prop :=
  e.transcript.pending = none ∧ ∃ calls r, e.transcript.done = calls ++ [(Relay.farewell, r)] ∧
    SucceededBeforeLast calls ∧ e.Shows s aggregated (calls.map (·.1))

def UnderWay (s : Assembly) (aggregated : Bool) (e : Episode) : Prop :=
  (∀ x ∈ e.transcript.done, Succeeded x) ∧ e.Shows s aggregated e.transcript.decisions ∨
  e.transcript.pending = some Relay.farewell ∧ SucceededBeforeLast e.transcript.done ∧
    e.Shows s aggregated (e.transcript.done.map (·.1))

theorem Shows.of_mirror {keys : List String} (hd : e.Delivered s keys)
    (hsingle : aggregated = false → ∃ key, keys = [key]) {taken : List Update}
    (htaken : taken <+: e.transcript.heard)
    (hds : ds = (Relay.mirror (if aggregated then some (.new keys) else none) taken).2) :
    e.Shows s aggregated ds where
  aggregate := fun hseveral => by
    rw [hds, hseveral]
    exact (Relay.mirror_some keys taken).2.2
  single := fun hnot => by
    obtain ⟨key, rfl⟩ := hsingle hnot
    have hkey : ∀ x ∈ e.made, x.1 = key := fun x hx => by simpa using hd.made x hx
    have hmade : e.made = [] ∨ ∃ id, e.made = [(key, id)] := by
      have hdistinct := hd.distinct
      cases hm : e.made with
      | nil => exact Or.inl rfl
      | cons x rest =>
        rw [hm] at hkey hdistinct
        cases rest with
        | nil => exact Or.inr ⟨x.2, by rw [← hkey x List.mem_cons_self]⟩
        | cons y rest =>
          have hxy : x.1 = y.1 := (hkey x (by simp)).trans (hkey y (by simp)).symm
          simp [hxy] at hdistinct
    have hprefix : taken.filterMap (·.status) <+: e.received s := by
      refine (htaken.filterMap _).trans ?_
      have hall : ∀ u ∈ e.transcript.heard, u.key = key := fun u hu => by simpa using hd.known u hu
      rw [← statusesOf_eq_filterMap hall]
      obtain hnil | ⟨id, p, hmem, hp, hpre⟩ := hd.statuses key
      · rw [hnil]
        exact List.nil_prefix
      · obtain hm | ⟨id', hm⟩ := hmade
        · simp [hm] at hmem
        · obtain rfl : id = id' := by simpa [hm] using hmem
          simpa [received, hm, hp] using hpre
    have hcalls : ds = (taken.filterMap (·.status)).map Status.decision := by
      rw [hds, hnot]
      exact congrArg Prod.snd (Relay.mirror_none taken)
    refine ⟨?_, ?_⟩
    · obtain hm | ⟨id, hm⟩ := hmade <;> simp [hm]
    · rw [hcalls, List.length_map, ← List.prefix_iff_eq_take.mp hprefix]

theorem Over.of_complete {keys : List String} (hd : e.Delivered s keys)
    (hsingle : aggregated = false → ∃ key, keys = [key])
    (hc : Relay.Complete (if aggregated then some (.new keys) else none) e.transcript) :
    e.Over s aggregated := by
  obtain ⟨hp, calls, r, hdone, ⟨taken, htaken, hcalls⟩, hbefore⟩ := hc
  exact ⟨hp, calls, r, hdone, hbefore, .of_mirror hd hsingle htaken hcalls⟩

theorem UnderWay.of_keeps {m : Relay} {keys : List String} (hd : e.Delivered s keys)
    (hsingle : aggregated = false → ∃ key, keys = [key])
    (hk : Relay.Keeps (if aggregated then some (.new keys) else none) e.transcript m)
    (hrun : ∀ outcome, m.activity ≠ .ended outcome) : e.UnderWay s aggregated := by
  cases hk with
  | idle _ _ _ ht =>
    exact Or.inl ⟨ht.done, .of_mirror hd hsingle ⟨_, ht.heard.symm⟩ ht.decisions⟩
  | calling _ _ _ ht =>
    exact Or.inl ⟨ht.done, .of_mirror hd hsingle ⟨_, ht.heard.symm⟩ ht.decisions⟩
  | closing _ hp hm =>
    obtain ⟨⟨taken, htaken, hcalls⟩, hbefore⟩ := hm
    exact Or.inr ⟨hp, hbefore, .of_mirror hd hsingle htaken hcalls⟩
  | ended he => exact absurd he (hrun _)

end Episode

namespace Assembly
variable {now i : Nat} {s : Assembly} {logs : Nat → List Episode} {c : Carrier}

/-- The calls of a component are those of its runs, one run after the other. All runs but the latest are over,
and so is that one unless it is in progress; then the last call of all lowers the signal. -/
theorem calls_fail_safe (h : Unfolds now s logs) (hc : s.carriers[i]? = some c) :
    ∃ e older, logs i = e :: older ∧ (e :: older).length = c.sync.supervisor.starts.length ∧
      c.sync.calls.reverse.map (·.2) = (e :: older).reverse.flatMap (·.transcript.decisions) ∧
      (∀ e' ∈ older, e'.Over s c.sync.aggregated) ∧
      (c.sync.running = true → e.UnderWay s c.sync.aggregated) ∧
      (c.sync.running = false → e.Over s c.sync.aggregated ∧
        c.sync.calls.head?.map (·.2) = some Relay.farewell) := by
  obtain ⟨e, older, hlog, hk⟩ := h.sound.keeps i c hc
  obtain ⟨hd, hpast⟩ := List.forall_mem_cons.mp hk.delivered
  have ha := hk.accounts
  refine ⟨e, older, hlog, ?_, ?_, fun e' he' => ?_, fun hrun => ?_, fun hrun => ?_⟩
  · rw [ha.starts]
    simp
  · have hcalls := congrArg List.reverse ha.calls
    rw [List.reverse_flatMap, ← List.map_cons (f := fun e : Episode => e.transcript), ← List.map_reverse,
      ← List.map_reverse, List.flatMap_map] at hcalls
    simpa [Function.comp_def] using hcalls
  · exact .of_complete (hpast e' he') hk.single (ha.past _ (List.mem_map_of_mem he'))
  · exact .of_keeps hd hk.single ha.run (ha.running.mp hrun)
  · exact ⟨.of_complete hd hk.single (ha.complete hrun), ha.farewell hrun⟩

theorem over_after_panic :
    ∃ s logs c, Unfolds 1000 s logs ∧ s.carriers[0]? = some c ∧ c.sync.supervisor.phase = .waiting 6000 ∧
      c.sync.calls.map (·.2) = [Relay.farewell, .go "ready"] ∧
      ∃ e older, logs 0 = e :: older ∧ e.Over s false := by
  have hnew : Unfolds 0
      (.new ⟨1, .empty, 0, [], false⟩ [("p", .manual "p" .liveness (.good "ready"))] .empty) _ :=
    .of_probes (List.forall_mem_singleton.mpr rfl)
  have hadd := hnew.add .liveness ["p"] false ⟨1000⟩
    (.rehearsed fun go _ => ⟨⟨0⟩, if go then .panics else .hangs⟩) (.restart ⟨5000⟩) false (by decide)
    fun _ => ⟨_, rfl⟩
  have hsubscribed := hadd.step (i := 0) rfl rfl (.attach "p" rfl (by decide) rfl)
  have hheard := hsubscribed.step (i := 0) rfl rfl (.forward [] rfl rfl rfl rfl)
  have hcalled := hheard.step (i := 0) rfl rfl (.proceed false rfl (by decide) rfl)
  have hfailed := hcalled.step (i := 0) rfl rfl (.resolve (d := 0) rfl rfl rfl (Nat.le_refl 0) rfl)
  have hended := (hfailed.pass (Nat.zero_le 1000)).step (i := 0) rfl rfl
    (.resolve (d := 1000) rfl rfl rfl (Nat.le_refl 1000) rfl)
  obtain ⟨e, older, hlog, -, -, -, -, hover⟩ := calls_fail_safe (i := 0) hended rfl
  exact ⟨_, _, _, hended, rfl, rfl, rfl, e, older, hlog, (hover rfl).1⟩

end Assembly
end HealthSignal
