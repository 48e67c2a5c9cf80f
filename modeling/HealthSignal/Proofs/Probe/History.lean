import HealthSignal.Proofs.Probe.Mail
import Mathlib.Data.List.Chain

/-! What was done to a hub, newest first, and what follows from it alone: the statuses that were pushed, who is
enrolled, and what a subscriber is sent. -/
namespace HealthSignal.Hub

inductive Act
  | query
  | subscribe (id : SubscriberId)
  | unsubscribe (id : SubscriberId)
  /-- A subscriber is reported to be gone. -/
  | terminated (id : SubscriberId)
  | loss (id : SubscriberId)
  /-- The watch over somebody who is not registered any more ends. -/
  | unwatched (id : SubscriberId)
  | publish (s : Status)
  | transition (s : Status)
  deriving DecidableEq

def Act.pushes (current : Status) : Act → Option Status
  | .publish s => some s
  | .transition s => if s = current then none else some s
  | _ => none

def pushed (initial : Status) : List Act → List Status
  | [] => []
  | a :: before =>
    pushed initial before ++ (a.pushes ((pushed initial before).getLast?.getD initial)).toList

def statusAfter (initial : Status) (acts : List Act) : Status := (pushed initial acts).getLast?.getD initial

def enrolled (id : SubscriberId) : List Act → Bool
  | [] => false
  | .subscribe x :: before => x == id || enrolled id before
  | .unsubscribe x :: before | .terminated x :: before => x != id && enrolled id before
  | _ :: before => enrolled id before

/-- What `id` is sent at an act: the current status when it subscribes, and every status pushed while it is enrolled.
Each comes with the number of statuses pushed so far. -/
def Act.sends (initial : Status) (id : SubscriberId) (before : List Act) : Act → List (Nat × Status)
  | .subscribe x => if x = id then [((pushed initial before).length, statusAfter initial before)] else []
  | a =>
    if enrolled id before then
      (a.pushes (statusAfter initial before)).toList.map ((pushed initial before).length + 1, ·)
    else []

def sent (initial : Status) (id : SubscriberId) : List Act → List (Nat × Status)
  | [] => []
  | a :: before => sent initial id before ++ a.sends initial id before

def published (acts : List Act) : List Status :=
  acts.reverse.filterMap fun
    | .publish s => some s
    | _ => none

variable {initial : Status} {id : SubscriberId} {acts : List Act}

theorem statusAfter_cons (a : Act) (acts : List Act) :
    statusAfter initial (a :: acts) =
      (a.pushes (statusAfter initial acts)).getD (statusAfter initial acts) := by
  rw [statusAfter, pushed, ← statusAfter]
  cases a.pushes (statusAfter initial acts) with
  | none => simp [statusAfter]
  | some s => simp

/-- The current status is the last of all. -/
theorem getElem?_statusAfter (initial : Status) (acts : List Act) :
    (initial :: pushed initial acts)[(pushed initial acts).length]? = some (statusAfter initial acts) := by
  have := List.getLast?_eq_getElem? (l := initial :: pushed initial acts)
  rw [List.getLast?_cons, List.length_cons, Nat.add_sub_cancel] at this
  exact this.symm

theorem mem_sends {a : Act} {x : Nat × Status} (hx : x ∈ a.sends initial id acts) :
    x = ((pushed initial acts).length, statusAfter initial acts) ∨
      x.1 = (pushed initial acts).length + 1 ∧ a.pushes (statusAfter initial acts) = some x.2 := by
  unfold Act.sends at hx
  split at hx
  · split at hx
    · exact Or.inl (List.mem_singleton.mp hx)
    · simp at hx
  · split at hx
    · obtain ⟨s, hs, rfl⟩ := List.mem_map.mp hx
      exact Or.inr ⟨rfl, by simpa using hs⟩
    · simp at hx

/-- What a subscriber is sent is a status of the probe, of the number that comes with it. -/
theorem getElem?_of_mem_sent {x : Nat × Status} (hx : x ∈ sent initial id acts) :
    (initial :: pushed initial acts)[x.1]? = some x.2 := by
  induction acts with
  | nil => simp [sent] at hx
  | cons a before ih =>
    have hkeep : ∀ {k : Nat} {s : Status}, (initial :: pushed initial before)[k]? = some s →
        (initial :: pushed initial (a :: before))[k]? = some s := by
      intro k s hk
      obtain ⟨hlt, -⟩ := List.getElem?_eq_some_iff.mp hk
      rw [pushed, ← List.cons_append, List.getElem?_append_left hlt, hk]
    obtain hx | hx := List.mem_append.mp hx
    · exact hkeep (ih hx)
    · obtain rfl | ⟨hnum, hpush⟩ := mem_sends hx
      · exact hkeep (getElem?_statusAfter initial before)
      · have hlast := getElem?_statusAfter initial (a :: before)
        rw [statusAfter_cons, hpush, Option.getD_some] at hlast
        have hlen : (pushed initial (a :: before)).length = x.1 := by
          rw [pushed, ← statusAfter, hpush, hnum]
          simp
        rwa [hlen] at hlast

theorem le_of_mem_sent {x : Nat × Status} (hx : x ∈ sent initial id acts) :
    x.1 ≤ (pushed initial acts).length := by
  obtain ⟨hlt, -⟩ := List.getElem?_eq_some_iff.mp (getElem?_of_mem_sent hx)
  exact Nat.le_of_lt_succ hlt

/-- No status is sent after a newer one. -/
theorem sent_ascending (initial : Status) (id : SubscriberId) (acts : List Act) :
    ((sent initial id acts).map (·.1)).Pairwise (· ≤ ·) := by
  induction acts with
  | nil => exact List.Pairwise.nil
  | cons a before ih =>
    rw [sent, List.map_append]
    refine List.pairwise_append.mpr ⟨ih, ?_, ?_⟩
    · -- An act sends at most one status.
      unfold Act.sends
      split
      · split <;> simp
      · split
        · cases a.pushes (statusAfter initial before) <;> simp
        · simp
    · intro m hm n hn
      obtain ⟨x, hx, rfl⟩ := List.mem_map.mp hm
      obtain ⟨y, hy, rfl⟩ := List.mem_map.mp hn
      have hle := le_of_mem_sent hx
      obtain rfl | ⟨hnum, -⟩ := mem_sends hy
      · exact hle
      · omega

theorem getLast?_push {xs : List (Nat × Status)} {current : Status} {n : Nat}
    (h : (xs.map (·.2)).getLast? = some current) (s : Option Status) :
    ((xs ++ s.toList.map (n, ·)).map (·.2)).getLast? = some (s.getD current) := by
  cases s with
  | none => simpa using h
  | some s => simp

/-- The last status sent to somebody enrolled is the current one. -/
theorem sent_last (h : enrolled id acts = true) :
    ((sent initial id acts).map (·.2)).getLast? = some (statusAfter initial acts) := by
  induction acts with
  | nil => simp [enrolled] at h
  | cons a before ih =>
    rw [statusAfter_cons, sent]
    cases a with
    | subscribe x =>
      by_cases hx : x = id
      · simp [Act.sends, hx, Act.pushes]
      · have hb : enrolled id before = true := by simpa [enrolled, hx] using h
        simpa [Act.sends, hx, Act.pushes] using ih hb
    | unsubscribe x | terminated x =>
      have hb : enrolled id before = true := (Bool.and_eq_true_iff.mp h).2
      rw [Act.sends, if_pos hb]
      · exact getLast?_push (ih hb) _
      · nofun
    | query | loss x | unwatched x | publish s | transition s =>
      have hb : enrolled id before = true := h
      rw [Act.sends, if_pos hb]
      · exact getLast?_push (ih hb) _
      · nofun

/-- Without publishing, no status is pushed twice in a row. -/
theorem pushed_chain (h : ∀ s, .publish s ∉ acts) : (initial :: pushed initial acts).IsChain (· ≠ ·) := by
  induction acts with
  | nil => exact List.isChain_singleton initial
  | cons a before ih =>
    have hchain := ih fun s hs => h s (List.mem_cons_of_mem a hs)
    rw [pushed, ← statusAfter, ← List.cons_append]
    cases hpush : a.pushes (statusAfter initial before) with
    | none => simpa using hchain
    | some s =>
      refine List.isChain_append.mpr ⟨hchain, List.isChain_singleton s, ?_⟩
      intro x hx y hy
      obtain rfl : s = y := by simpa using hy
      have hlast : statusAfter initial before = x := by
        rw [List.getLast?_cons] at hx
        exact Option.some.inj hx
      cases a with
      | transition t =>
        by_cases ht : t = statusAfter initial before
        · simp [Act.pushes, ht] at hpush
        · obtain rfl : t = s := by simpa [Act.pushes, ht] using hpush
          exact fun heq => ht (hlast.trans heq).symm
      | publish t => exact absurd List.mem_cons_self (h t)
      | query | subscribe x | unsubscribe x | terminated x | loss x | unwatched x => simp [Act.pushes] at hpush

/-- Where nothing but publishing changes the status, everything published is pushed. -/
theorem pushed_eq_published (h : ∀ s, .transition s ∉ acts) : pushed initial acts = published acts := by
  induction acts with
  | nil => rfl
  | cons a before ih =>
    have ih := ih fun s hs => h s (List.mem_cons_of_mem a hs)
    rw [pushed, published, List.reverse_cons, List.filterMap_append, ← published, ih]
    congr 1
    cases a with
    | transition t => exact absurd List.mem_cons_self (h t)
    | publish t | query | subscribe x | unsubscribe x | terminated x | loss x | unwatched x => rfl

end HealthSignal.Hub
