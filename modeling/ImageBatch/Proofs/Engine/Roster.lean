import ImageBatch.Proofs.Engine.Moves
import Mathlib.Data.List.Nodup

/-!
# The roster of workers

Workers are told apart by their numbers. Each of them, and each that is over and not taken back, is
entered in the list of tasks in flight, and nobody else is.
-/

namespace ImageBatch.Engine

/-- An entry whose key nobody else has stands beside the entries with other keys. -/
theorem perm_cons_filter {α : Type} (key : α → Nat) {a : α} {l : List α}
    (hn : (l.map key).Nodup) (ha : a ∈ l) :
    l.Perm (a :: l.filter (fun b => key b != key a)) := by
  induction l with
  | nil => simp at ha
  | cons b l ih =>
      obtain ⟨hb, hn⟩ := List.nodup_cons.mp hn
      rcases List.mem_cons.mp ha with rfl | ha
      · have hkeep : l.filter (fun b => key b != key a) = l := by
          apply List.filter_eq_self.mpr
          intro c hc
          have hne : key c ≠ key a := fun he => hb (he ▸ List.mem_map_of_mem hc)
          simpa using hne
        simp [hkeep]
      · have hne : key b ≠ key a := fun he => hb (he ▸ List.mem_map_of_mem ha)
        rw [List.filter_cons_of_pos (by simpa using hne)]
        exact ((ih hn ha).cons b).trans (List.Perm.swap a b _)

theorem mem_of_lookup_eq_some {α : Type} {l : List (Nat × α)} {id : Nat} {a : α}
    (h : l.lookup id = some a) : (id, a) ∈ l := by
  obtain ⟨before, after, rfl, -⟩ := List.lookup_eq_some_iff.mp h
  exact List.mem_append_right before List.mem_cons_self

/-- The workers and those that are over are just the ones in flight. Each has a number of its own,
and a result is about the task of its worker. -/
structure Roster (workers : List Worker) (finished : List (Nat × Exit))
    (inFlight : List (Nat × Task)) (nextId : Nat) : Prop where
  ids : (workers.map Worker.id ++ finished.map Prod.fst).Perm (inFlight.map Prod.fst)
  nodup : (inFlight.map Prod.fst).Nodup
  fresh : ∀ f ∈ inFlight, f.1 < nextId
  working : ∀ w ∈ workers, (w.id, w.task) ∈ inFlight
  done : ∀ w ∈ workers, ∀ r, w.phase = .over (.done r) → r.task = w.task
  settled : ∀ f ∈ finished, ∀ r, f.2 = .done r → (f.1, r.task) ∈ inFlight

namespace Roster

variable {workers : List Worker} {finished rest : List (Nat × Exit)}
  {inFlight : List (Nat × Task)} {nextId id : Nat} {e : Exit}

theorem nodup_workers (h : Roster workers finished inFlight nextId) :
    (workers.map Worker.id).Nodup :=
  (List.nodup_append.mp (h.ids.nodup_iff.mpr h.nodup)).1

theorem task_eq (h : Roster workers finished inFlight nextId) {v w : Worker} (hv : v ∈ workers)
    (hw : w ∈ workers) (he : v.id = w.id) : v.task = w.task := by
  rw [List.inj_on_of_nodup_map h.nodup_workers hv hw he]

theorem spawn (h : Roster workers finished inFlight nextId) (t : Task) :
    Roster (workers ++ [⟨nextId, t, .spawned⟩]) finished (inFlight ++ [(nextId, t)])
      (nextId + 1) := by
  refine ⟨?_, ?_, ?_, ?_, ?_, ?_⟩
  · have hmove : (workers.map Worker.id ++ [nextId] ++ finished.map Prod.fst).Perm
        (workers.map Worker.id ++ finished.map Prod.fst ++ [nextId]) := by
      rw [List.append_assoc, List.append_assoc]
      exact List.perm_append_comm.append_left _
    simpa using hmove.trans (h.ids.append_right [nextId])
  · simp only [List.map_append, List.map_cons, List.map_nil]
    refine List.nodup_append.mpr ⟨h.nodup, by simp, ?_⟩
    intro a ha b hb
    obtain ⟨f, hf, rfl⟩ := List.mem_map.mp ha
    have hlt := h.fresh f hf
    simp only [List.mem_singleton] at hb
    omega
  · intro f hf
    rcases List.mem_append.mp hf with hf | hf
    · exact Nat.lt_succ_of_lt (h.fresh f hf)
    · simp only [List.mem_singleton] at hf
      subst f
      exact Nat.lt_succ_self nextId
  · intro w hw
    rcases List.mem_append.mp hw with hw | hw
    · exact List.mem_append_left _ (h.working w hw)
    · simp only [List.mem_singleton] at hw
      subst w
      simp
  · intro w hw r hp
    rcases List.mem_append.mp hw with hw | hw
    · exact h.done w hw r hp
    · simp only [List.mem_singleton] at hw
      subst w
      cases hp
  · intro f hf r he
    exact List.mem_append_left _ (h.settled f hf r he)

theorem inPhase (h : Roster workers finished inFlight nextId) {w : Worker} {p : Phase}
    (hw : w ∈ workers) (hp : ∀ r, p = .over (.done r) → r.task = w.task) :
    Roster (workers.map (Worker.inPhase w.id p)) finished inFlight nextId := by
  refine ⟨Worker.map_id_inPhase workers w.id p ▸ h.ids, h.nodup, h.fresh, ?_, ?_, h.settled⟩
  · intro v hv
    obtain ⟨u, hu, rfl⟩ := List.mem_map.mp hv
    simpa using h.working u hu
  · intro v hv r hr
    obtain ⟨u, hu, rfl⟩ := List.mem_map.mp hv
    rw [Worker.inPhase_task]
    by_cases he : u.id = w.id
    · have hr' : p = .over (.done r) := by simpa [Worker.inPhase, he] using hr
      rw [hp r hr', h.task_eq hu hw he]
    · exact h.done u hu r (by simpa [Worker.inPhase, he] using hr)

theorem settle (h : Roster workers finished inFlight nextId) {w : Worker} {e : Exit}
    (hw : w ∈ workers) (hp : w.phase = .over e) :
    Roster (workers.filter (fun v => v.id != w.id)) (finished ++ [(w.id, e)]) inFlight nextId := by
  refine ⟨?_, h.nodup, h.fresh, ?_, ?_, ?_⟩
  · have hsplit := (perm_cons_filter Worker.id h.nodup_workers hw).map Worker.id
    have hmove : ((workers.filter (fun v => v.id != w.id)).map Worker.id ++
        (finished.map Prod.fst ++ [w.id])).Perm
        (w.id :: (workers.filter (fun v => v.id != w.id)).map Worker.id ++
          finished.map Prod.fst) := by
      rw [← List.append_assoc]
      exact List.perm_append_singleton _ _
    rw [List.map_append, List.map_singleton]
    exact hmove.trans ((hsplit.symm.append_right _).trans h.ids)
  · intro v hv
    exact h.working v (List.mem_filter.mp hv).1
  · intro v hv
    exact h.done v (List.mem_filter.mp hv).1
  · intro f hf r he
    rcases List.mem_append.mp hf with hf | hf
    · exact h.settled f hf r he
    · simp only [List.mem_singleton] at hf
      subst f
      have hr : r.task = w.task := h.done w hw r (by rw [hp]; exact congrArg _ he)
      exact hr ▸ h.working w hw

/-- Somebody in flight has the number of a worker that is over. -/
theorem mem_inFlight (h : Roster workers ((id, e) :: rest) inFlight nextId) :
    ∃ t, (id, t) ∈ inFlight := by
  have hid : id ∈ inFlight.map Prod.fst := by
    refine h.ids.mem_iff.mp ?_
    simp
  obtain ⟨f, hf, rfl⟩ := List.mem_map.mp hid
  exact ⟨f.2, hf⟩

/-- So the number of a worker that is over is found among those in flight. -/
theorem lookup_ne_none (h : Roster workers ((id, e) :: rest) inFlight nextId) :
    inFlight.lookup id ≠ none := by
  obtain ⟨t, ht⟩ := h.mem_inFlight
  intro hnone
  have hne := List.lookup_eq_none_iff.mp hnone _ ht
  simp at hne

theorem reap (h : Roster workers ((id, e) :: rest) inFlight nextId) :
    Roster workers rest (inFlight.filter (fun f => f.1 != id)) nextId := by
  obtain ⟨t, ht⟩ := h.mem_inFlight
  have hsplit := perm_cons_filter Prod.fst h.nodup ht
  have hsame : ∀ f ∈ inFlight, f.1 ≠ id → f ∈ inFlight.filter (fun f => f.1 != id) := by
    intro f hf hne
    exact List.mem_filter.mpr ⟨hf, by simpa using hne⟩
  have hids : (workers.map Worker.id ++ rest.map Prod.fst).Perm
      ((inFlight.filter (fun f => f.1 != id)).map Prod.fst) := by
    apply List.Perm.cons_inv (a := id)
    exact List.perm_middle.symm.trans (h.ids.trans (hsplit.map Prod.fst))
  have hne : id ∉ workers.map Worker.id ++ rest.map Prod.fst := by
    intro hid
    have hin := hids.mem_iff.mp hid
    simp at hin
  refine ⟨hids, h.nodup.sublist (List.filter_sublist.map Prod.fst), ?_, ?_, h.done, ?_⟩
  · intro f hf
    exact h.fresh f (List.mem_filter.mp hf).1
  · intro w hw
    refine hsame _ (h.working w hw) ?_
    rintro rfl
    exact hne (List.mem_append_left _ (List.mem_map_of_mem hw))
  · intro f hf r he
    refine hsame _ (h.settled f (List.mem_cons_of_mem _ hf) r he) ?_
    rintro rfl
    exact hne (List.mem_append_right _ (List.mem_map_of_mem hf))

end Roster

/-! ## The roster of a run -/

variable {s : Settings} {x y : State} {l : Label}

def State.HasRoster (x : State) : Prop := Roster x.workers x.finished x.inFlight x.nextId

theorem State.HasRoster.lookup_ne_none (hx : x.HasRoster) {id : Nat} {e : Exit}
    {rest : List (Nat × Exit)} (hf : x.finished = (id, e) :: rest) :
    x.inFlight.lookup id ≠ none := by
  unfold HasRoster at hx
  rw [hf] at hx
  exact Roster.lookup_ne_none hx

theorem State.HasRoster.lookup_eq_some_iff (hx : x.HasRoster) {id : Nat} {t : Task} :
    x.inFlight.lookup id = some t ↔ (id, t) ∈ x.inFlight := by
  refine ⟨mem_of_lookup_eq_some, fun ht => ?_⟩
  cases hlookup : x.inFlight.lookup id with
  | none => exact absurd (List.lookup_eq_none_iff.mp hlookup _ ht) (by simp)
  | some u =>
      have hsame := List.inj_on_of_nodup_map hx.nodup (mem_of_lookup_eq_some hlookup) ht rfl
      exact congrArg (some ∘ Prod.snd) hsame

theorem State.start_hasRoster (s : Settings) (set : TaskSet) (policy : SkipPolicy)
    (cancelled : Bool) : (State.start s set policy cancelled).HasRoster := by
  constructor <;> simp [State.start]

/-- A reaction that ends a worker ends it with a result about its task. -/
theorem exit_of_react {c : Bool} {t : Task} {k : Nat} {a : Answer} {h : Happening} {e : Exit}
    (hr : react s c t k a = .finish h e) : ∃ r, e = .done r ∧ r.task = t := by
  cases a with
  | success =>
      simp only [react, Reaction.finish.injEq] at hr
      exact ⟨_, hr.2.symm, rfl⟩
  | panic words => simp [react] at hr
  | failure f =>
      simp only [react] at hr
      split at hr
      · simp only [Reaction.finish.injEq] at hr
        exact ⟨_, hr.2.symm, rfl⟩
      · split at hr <;> cases hr

theorem Dispatches.hasRoster (h : Dispatches x y) (hx : x.HasRoster) : y.HasRoster := by
  cases h with
  | forward hd hf | recover hd hf ht | forget hd hf ht =>
      unfold State.HasRoster at hx ⊢
      rw [hf] at hx
      exact hx.reap
  | spawn hl => exact hx.spawn _
  | _ => exact hx

theorem Works.hasRoster (h : Works s x l y) (hx : x.HasRoster) : y.HasRoster := by
  cases h with
  | begin hw hp | pause hw hp ha | abort hw hp ha | wake hw hp =>
      exact hx.inPhase hw (by simp)
  | finish hw hp ha =>
      refine hx.inPhase hw ?_
      intro r hr
      obtain ⟨r', rfl, htask⟩ := exit_of_react ha
      cases hr
      exact htask
  | giveUp hw hp hc =>
      refine hx.inPhase hw ?_
      intro r hr
      cases hr
      rfl
  | settle hw hp => exact hx.settle hw hp

theorem Moves.hasRoster (h : Moves s x l y) (hx : x.HasRoster) : y.HasRoster := by
  cases h with
  | cancel hc => exact hx
  | dispatcher h => exact h.hasRoster hx
  | aggregator h => exact hx
  | worker h => exact h.hasRoster hx

theorem Reachable.hasRoster {set : TaskSet} {policy : SkipPolicy} {cancelled : Bool}
    (h : Reachable s set policy cancelled x) : x.HasRoster :=
  Reachable.induction (State.start_hasRoster s set policy cancelled)
    (fun _ hx hm => hm.hasRoster hx) h

end ImageBatch.Engine
