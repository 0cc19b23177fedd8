import ImageBatch.Proofs.Engine.Slots
import ImageBatch.Proofs.Engine.Stream

/-!
# How much goes on at once

A worker that calls has a slot, and there are only so many of them. So there are never more calls
under way than slots, and never more workers that have not given their slot back.
-/

namespace ImageBatch.Engine

variable {s : Settings} {set : TaskSet} {policy : SkipPolicy} {cancelled : Bool} {x y : State}
  {l : Label}

/-! ## Calls under way -/

/-- The call that a worker waits for. -/
def Worker.call? (w : Worker) : Option Invocation :=
  match w.phase with
  | .calling k => some ⟨w.id, w.task, k⟩
  | _ => none

/-- The calls that have started and are not answered. -/
def State.underWay (x : State) : List Invocation := x.workers.filterMap Worker.call?

theorem Worker.call?_eq_some {w : Worker} {i : Invocation} :
    w.call? = some i ↔ ∃ k, w.phase = .calling k ∧ i = ⟨w.id, w.task, k⟩ := by
  unfold call?
  constructor
  · intro h
    split at h
    · rename_i k hp
      exact ⟨k, hp, (Option.some.inj h).symm⟩
    · cases h
  · rintro ⟨k, hp, rfl⟩
    rw [hp]

theorem Worker.holdsSlot_of_call? {w : Worker} (h : w.call?.isSome = true) :
    w.holdsSlot = true := by
  obtain ⟨i, hi⟩ := Option.isSome_iff_exists.mp h
  obtain ⟨k, hp, -⟩ := Worker.call?_eq_some.mp hi
  rw [holdsSlot, hp]
  rfl

theorem State.length_underWay (x : State) :
    x.underWay.length = x.workers.countP (fun w => w.call?.isSome) := by
  rw [underWay, List.length_filterMap_eq_countP]

theorem State.underWay_of_inPhase {w : Worker} {p : Phase} (hp : ∀ k, p ≠ .calling k)
    {i : Invocation} (hi : i ∈ (x.workers.map (Worker.inPhase w.id p)).filterMap Worker.call?) :
    i ∈ x.underWay := by
  obtain ⟨v, hv, hcall⟩ := List.mem_filterMap.mp hi
  obtain ⟨u, hu, rfl⟩ := List.mem_map.mp hv
  by_cases hid : u.id = w.id
  · obtain ⟨k, hk, -⟩ := Worker.call?_eq_some.mp hcall
    simp only [Worker.inPhase, hid, beq_self_eq_true, if_true] at hk
    exact (hp k hk).elim
  · rw [Worker.inPhase_of_ne hid] at hcall
    exact List.mem_filterMap.mpr ⟨u, hu, hcall⟩

theorem State.underWay_of_calling (hr : x.HasRoster) {w : Worker} (hw : w ∈ x.workers) {k : Nat}
    {i : Invocation}
    (hi : i ∈ (x.workers.map (Worker.inPhase w.id (.calling k))).filterMap Worker.call?) :
    i = ⟨w.id, w.task, k⟩ ∨ i ∈ x.underWay := by
  obtain ⟨v, hv, hcall⟩ := List.mem_filterMap.mp hi
  obtain ⟨u, hu, rfl⟩ := List.mem_map.mp hv
  by_cases hid : u.id = w.id
  · have hsame : u = w := List.inj_on_of_nodup_map hr.nodup_workers hu hw hid
    subst hsame
    obtain ⟨k', hk, rfl⟩ := Worker.call?_eq_some.mp hcall
    simp only [Worker.inPhase, beq_self_eq_true, if_true] at hk ⊢
    cases hk
    exact .inl rfl
  · rw [Worker.inPhase_of_ne hid] at hcall
    exact .inr (List.mem_filterMap.mpr ⟨u, hu, hcall⟩)

theorem Works.underWay_subset (h : Works s x l y) (hr : x.HasRoster)
    (hx : x.underWay ⊆ x.calls) : y.underWay ⊆ y.calls := by
  intro i hi
  cases h with
  | begin hw hp | wake hw hp =>
      rcases State.underWay_of_calling hr hw hi with rfl | hi
      · exact List.mem_cons_self
      · exact List.mem_cons_of_mem _ (hx hi)
  | finish hw hp ha | pause hw hp ha | abort hw hp ha | giveUp hw hp hc =>
      exact hx (State.underWay_of_inPhase (by simp) hi)
  | settle hw hp =>
      exact hx ((List.filter_sublist.filterMap Worker.call?).subset hi)

theorem Dispatches.underWay_eq (h : Dispatches x y) :
    y.underWay = x.underWay ∧ y.calls = x.calls := by
  cases h with
  | spawn hl =>
      refine ⟨?_, rfl⟩
      simp [State.underWay, Worker.call?]
  | _ => exact ⟨rfl, rfl⟩

theorem Reachable.underWay_subset (h : Reachable s set policy cancelled x) :
    x.underWay ⊆ x.calls := by
  refine Reachable.induction (P := fun x => x.underWay ⊆ x.calls) ?_ ?_ h
  · exact List.nil_subset _
  · intro x l y hx ih hm
    cases hm with
    | cancel hc => exact ih
    | dispatcher hm =>
        obtain ⟨hunder, hcalls⟩ := hm.underWay_eq
        rw [hunder, hcalls]
        exact ih
    | aggregator hm => exact ih
    | worker hm => exact hm.underWay_subset hx.hasRoster ih

/-! ## Slots that are not given back -/

/-- The slot that comes with the result which the dispatcher puts on the stream. -/
def Dispatch.returning : Dispatch → Nat
  | .delivering _ true _ => 1
  | _ => 0

/-- How many workers, over or not, have not given their slot back. -/
def State.occupied (x : State) : Nat := x.taken + x.dispatch.returning

theorem Dispatch.returning_le (d : Dispatch) : d.returning ≤ d.slots := by
  cases d with
  | delivering r freesSlot k => cases freesSlot <;> exact Nat.le_refl _
  | _ => exact Nat.zero_le _

theorem State.length_underWay_le (x : State) : x.underWay.length ≤ x.occupied := by
  have hcalling : x.workers.countP (fun w => w.call?.isSome) ≤
      x.workers.countP Worker.holdsSlot :=
    List.countP_mono_left fun w _ => Worker.holdsSlot_of_call?
  rw [x.length_underWay, occupied, taken]
  omega

/-- In every run, whatever the tool answers, whenever the run is cancelled and in whatever order
everybody moves: the calls under way, each of which was made, are at most as many as the workers
that have not given their slot back, and these are at most as many as there are slots. -/
theorem Reachable.underWay_le (h : Reachable s set policy cancelled x) :
    x.underWay ⊆ x.calls ∧ x.underWay.length ≤ x.occupied ∧ x.occupied ≤ max s.limit 1 := by
  refine ⟨h.underWay_subset, x.length_underWay_le, ?_⟩
  have hkeeps := h.keepsSlots
  have hreturning := x.dispatch.returning_le
  rw [State.KeepsSlots, Settings.slots] at hkeeps
  rw [State.occupied]
  omega

/-- Two slots for three images. -/
def pair : Settings := { frugal with limit := 2 }

/-- Both slots are taken by workers that call, and the dispatcher waits for one of them. -/
theorem underWay_le_of_pair :
    ∃ x, Reachable pair threeImages ⟨.mirrorToMirror, false⟩ false x ∧ x.underWay.length = 2 ∧
      x.pending = [] ∧ x.free = 0 ∧
      x.underWay ⊆ x.calls ∧ x.underWay.length ≤ x.occupied ∧ x.occupied ≤ max pair.limit 1 := by
  have hrun : ((steps? pair (State.start pair threeImages ⟨.mirrorToMirror, false⟩ false)
      (timing [(5, .dispatcher), (5, .aggregator), (6, .dispatcher), (6, .aggregator),
        (5, .dispatcher), (1, .begin 0), (1, .begin 1)])).map
          (fun x => (x.underWay.length, x.pending, x.free))) = some (2, [], 0) := by
    decide +kernel
  obtain ⟨x, hx, hends⟩ := Option.map_eq_some_iff.mp hrun
  simp only [Prod.mk.injEq] at hends
  obtain ⟨hcalls, hpending, hfree⟩ := hends
  have hreach := Reachable.start.of_steps? hx
  exact ⟨x, hreach, hcalls, hpending, hfree, hreach.underWay_le⟩

end ImageBatch.Engine
