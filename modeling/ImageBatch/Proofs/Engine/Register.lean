import ImageBatch.Proofs.Engine.Ledger
import ImageBatch.Proofs.Engine.Occupancy

/-!
# The register of workers

The dispatcher enters every worker in a register, with its task, under a badge that no other worker
has who is not taken back, and strikes the entry out when it takes the worker back. Others move on
between the moment when a worker gets its task and the moment when it is entered, so it may have
broken off by then, and a badge may be given anew when its worker was taken back. Still, whenever
the dispatcher waits for something, the register holds just the workers that are not taken back,
each with the task that it was given. So nobody that breaks off is unknown to it.
-/

namespace ImageBatch.Engine

variable {κ : Type} {badge : Nat → κ} {s : Settings} {set : TaskSet} {policy : SkipPolicy}
  {cancelled : Bool} {x y : State} {l : Label}

/-! ## Badges -/

/-- No two workers that are not taken back have the same badge. -/
def State.HasBadges (badge : Nat → κ) (x : State) : Prop :=
  ((x.jobs.map Prod.fst).map badge).Nodup

instance [DecidableEq κ] (badge : Nat → κ) (x : State) : Decidable (x.HasBadges badge) :=
  inferInstanceAs (Decidable (List.Nodup _))

namespace State.HasRoster

theorem hasBadges_iff (hr : x.HasRoster) :
    x.HasBadges badge ↔ ((x.inFlight.map Prod.fst).map badge).Nodup := by
  rw [HasBadges, map_fst_jobs]
  exact (hr.ids.map badge).nodup_iff

theorem worker?_nextId (hr : x.HasRoster) : x.worker? x.nextId = none := by
  refine List.find?_eq_none.mpr fun w hw => ?_
  have hlt := hr.id_lt hw
  simpa using hlt.ne

end State.HasRoster

/-! ## Keeping a register -/

/-- The workers of a run up to now, and the register that is kept of them. -/
structure Register (κ : Type) [DecidableEq κ] [Hashable κ] where
  /-- Everybody who was given a task, newest first. -/
  given : List (Nat × Task)
  /-- Everybody who was taken back. -/
  back : List Nat
  /-- Who is entered, by badge. -/
  entries : Std.HashMap κ Task
  /-- Who was given a task and is still to be entered. -/
  due : Option (Nat × Task)

variable [DecidableEq κ] [Hashable κ] {g : Register κ}

namespace Register

def empty : Register κ := ⟨[], [], ∅, none⟩

/-- Somebody is given a task. -/
def give (g : Register κ) (f : Nat × Task) : Register κ :=
  { g with given := f :: g.given, due := some f }

def enter (badge : Nat → κ) (g : Register κ) (f : Nat × Task) : Register κ :=
  { g with entries := g.entries.insert (badge f.1) f.2, due := none }

/-- Somebody is taken back. -/
def strikeOut (badge : Nat → κ) (g : Register κ) (id : Nat) : Register κ :=
  { g with back := id :: g.back, entries := g.entries.erase (badge id) }

end Register

/-- The worker that the dispatcher takes back now. -/
def State.returning (x : State) : Option Nat :=
  if x.dispatch.takesBack then x.finished.head?.map Prod.fst else none

/-- The worker that is new in a later state, with its task. -/
def State.newcomer (x y : State) : Option (Nat × Task) :=
  (y.worker? x.nextId).map (fun w => (w.id, w.task))

/-- Keeps the register in a step of the dispatcher from `x` to `y`. -/
def State.register (badge : Nat → κ) (x y : State) (g : Register κ) : Register κ :=
  match x.returning, x.newcomer y with
  | some id, _ => g.strikeOut badge id
  | none, some f => g.give f
  | none, none => g

/-- A state that a run can come to, with the register up to then. A worker that has a task is
entered before the dispatcher does anything else, but others may move on before that. -/
inductive Registered (s : Settings) (set : TaskSet) (policy : SkipPolicy) (cancelled : Bool)
    (badge : Nat → κ) : State → Register κ → Prop where
  | start : Registered s set policy cancelled badge (State.start s set policy cancelled) .empty
  | enter {x : State} {g : Register κ} {f : Nat × Task}
      (h : Registered s set policy cancelled badge x g) (hd : g.due = some f) :
    Registered s set policy cancelled badge x (g.enter badge f)
  | other {x y : State} {g : Register κ} {l : Label}
      (h : Registered s set policy cancelled badge x g) (hl : l ≠ .dispatcher)
      (hs : step? s x l = some y) :
    Registered s set policy cancelled badge y g
  | dispatcher {x y : State} {g : Register κ}
      (h : Registered s set policy cancelled badge x g) (hd : g.due = none)
      (hs : step? s x .dispatcher = some y) (hb : y.HasBadges badge) :
    Registered s set policy cancelled badge y (x.register badge y g)

/-- Takes the steps and keeps the register; `none` stands for an entry. -/
def registered? (s : Settings) (badge : Nat → κ) (x : State) (g : Register κ) :
    List (Option Label) → Option (State × Register κ)
  | [] => some (x, g)
  | none :: ls => g.due.bind fun f => registered? s badge x (g.enter badge f) ls
  | some l :: ls => (step? s x l).bind fun y =>
    if l ≠ .dispatcher then registered? s badge y g ls
    else if g.due = none ∧ y.HasBadges badge then
      registered? s badge y (x.register badge y g) ls
    else none

theorem Registered.of_registered? {ls : List (Option Label)} {p : State × Register κ}
    (hx : Registered s set policy cancelled badge x g) (h : registered? s badge x g ls = some p) :
    Registered s set policy cancelled badge p.1 p.2 := by
  induction ls generalizing x g with
  | nil =>
      cases h
      exact hx
  | cons l ls ih =>
      cases l with
      | none =>
          simp only [registered?, Option.bind_eq_some_iff] at h
          obtain ⟨f, hf, h⟩ := h
          exact ih (hx.enter hf) h
      | some l =>
          simp only [registered?, Option.bind_eq_some_iff] at h
          obtain ⟨y, hs, h⟩ := h
          split at h
          · next hl => exact ih (hx.other hl hs) h
          · next hl =>
              obtain rfl : l = .dispatcher := not_not.mp hl
              split at h
              · next hd => exact ih (hx.dispatcher hd.1 hs hd.2) h
              · cases h

theorem Registered.reachable (h : Registered s set policy cancelled badge x g) :
    Reachable s set policy cancelled x := by
  induction h with
  | start => exact .start
  | enter h hd ih => exact ih
  | other h hl hs ih => exact ih.step hs
  | dispatcher h hd hs hb ih => exact ih.step hs

theorem Reachable.exists_registered (hb : Function.Injective badge)
    (h : Reachable s set policy cancelled x) :
    ∃ g, Registered s set policy cancelled badge x g ∧ g.due = none := by
  induction h with
  | start => exact ⟨_, .start, rfl⟩
  | @step x y l hx hs ih =>
      obtain ⟨g, hg, hd⟩ := ih
      by_cases hl : l = .dispatcher
      · subst hl
        have hbadges : y.HasBadges badge := (hx.step hs).hasRoster.nodup_jobs.map hb
        have hy := hg.dispatcher hd hs hbadges
        cases hdue : (x.register badge y g).due with
        | none => exact ⟨_, hy, hdue⟩
        | some f => exact ⟨_, hy.enter hdue, rfl⟩
      · exact ⟨g, hg.other hl hs, hd⟩

/-! ## What the dispatcher does to it -/

theorem Moves.inFlight_eq (h : Moves s x l y) (hl : l ≠ .dispatcher) :
    y.inFlight = x.inFlight ∧ y.nextId = x.nextId := by
  cases h with
  | cancel hc => exact ⟨rfl, rfl⟩
  | dispatcher h => exact absurd rfl hl
  | aggregator h => exact ⟨rfl, rfl⟩
  | worker h => cases h <;> exact ⟨rfl, rfl⟩

theorem State.returning_of_head {k : Resume} {id : Nat} {e : Exit} {rest : List (Nat × Exit)}
    (hd : LooksForWorkers x.dispatch k) (hf : x.finished = (id, e) :: rest) :
    x.returning = some id := by
  rw [returning, if_pos hd.takesBack, hf]
  rfl

theorem State.returning_eq_none (h : x.dispatch.takesBack = false ∨ x.finished = []) :
    x.returning = none := by
  rw [returning]
  split
  · next ht =>
      rw [h.resolve_left (by simp [ht])]
      rfl
  · rfl

/-- The dispatcher takes somebody back, gives somebody a task, or does neither. -/
theorem Dispatches.register_cases (h : Dispatches x y) (hr : x.HasRoster) :
    (∃ id e rest, x.finished = (id, e) :: rest ∧ x.returning = some id ∧
      y.inFlight = x.inFlight.filter (fun f => f.1 != id) ∧ y.nextId = x.nextId) ∨
    (∃ t, x.returning = none ∧ x.newcomer y = some (x.nextId, t) ∧
      y.inFlight = x.inFlight ++ [(x.nextId, t)] ∧ y.nextId = x.nextId + 1) ∨
    (x.returning = none ∧ x.newcomer y = none ∧ y.inFlight = x.inFlight ∧
      y.nextId = x.nextId) := by
  have hnone : (x.worker? x.nextId).map (fun w => (w.id, w.task)) = none := by
    rw [hr.worker?_nextId]
    rfl
  cases h with
  | forward hd hf | recover hd hf | forget hd hf =>
      exact .inl ⟨_, _, _, hf, State.returning_of_head hd hf, rfl, rfl⟩
  | @spawn t reply hl =>
      refine .inr (.inl ⟨t, State.returning_eq_none (.inl ?_), ?_, rfl, rfl⟩)
      · rcases hl.dispatch_eq with hd | hd <;> rw [hd] <;> rfl
      · have hfind : x.workers.find? (fun w => w.id == x.nextId) = none := hr.worker?_nextId
        simp [State.newcomer, State.worker?, List.find?_append, hfind]
  | noneOver hd hf | finish hd hf =>
      exact .inr (.inr ⟨State.returning_eq_none (.inr hf), hnone, rfl, rfl⟩)
  | takeUp hd | runOut hd | giveUp hd | goOn hd | acquire hd | fallAsleep hd | wake hd | ask hd
  | bypass hd | skip hd | deliver hd | deliverInVain hd | discard hd | discarded hd | close hd =>
      exact .inr (.inr ⟨State.returning_eq_none (.inl (by rw [hd]; rfl)), hnone, rfl, rfl⟩)

/-! ## What the register holds -/

/-- The register holds those who are in flight, but for one who is still to be entered, and in
flight are those who were given a task and not taken back. -/
structure State.Enters (badge : Nat → κ) (x : State) (g : Register κ) : Prop where
  nodup : (g.given.map Prod.fst).Nodup
  given : ∀ f ∈ g.given, f.1 < x.nextId
  back : ∀ id ∈ g.back, id < x.nextId
  inFlight : ∀ f, f ∈ x.inFlight ↔ f ∈ g.given ∧ f.1 ∉ g.back
  badges : ((x.inFlight.map Prod.fst).map badge).Nodup
  due : ∀ f ∈ g.due, f ∈ x.inFlight
  entries : ∀ k t, g.entries[k]? = some t ↔
    ∃ f ∈ x.inFlight, g.due ≠ some f ∧ badge f.1 = k ∧ f.2 = t

namespace State.Enters

theorem eq_of_badge (hx : x.Enters badge g) {f f' : Nat × Task} (hf : f ∈ x.inFlight)
    (hf' : f' ∈ x.inFlight) (h : badge f.1 = badge f'.1) : f = f' := by
  have hn := hx.badges
  rw [List.map_map] at hn
  exact List.inj_on_of_nodup_map hn hf hf' h

theorem of_eq (hx : x.Enters badge g) (hflight : y.inFlight = x.inFlight)
    (hid : y.nextId = x.nextId) : y.Enters badge g := by
  refine ⟨hx.nodup, hid ▸ hx.given, hid ▸ hx.back, ?_, ?_, ?_, ?_⟩ <;> rw [hflight]
  · exact hx.inFlight
  · exact hx.badges
  · exact hx.due
  · exact hx.entries

theorem enter (hx : x.Enters badge g) {f : Nat × Task} (hd : g.due = some f) :
    x.Enters badge (g.enter badge f) := by
  have hf := hx.due f hd
  refine ⟨hx.nodup, hx.given, hx.back, hx.inFlight, hx.badges, by simp [Register.enter], ?_⟩
  intro k t
  simp only [Register.enter, Std.HashMap.getElem?_insert, beq_iff_eq]
  split
  · next hk =>
      subst hk
      constructor
      · intro ht
        exact ⟨f, hf, by simp, rfl, Option.some.inj ht⟩
      · rintro ⟨f', hf', -, hb, rfl⟩
        rw [hx.eq_of_badge hf' hf hb]
  · next hk =>
      rw [hx.entries k t]
      refine exists_congr fun f' => and_congr_right fun _ => and_congr_left fun hb => ?_
      refine iff_of_true (fun hsame => hk ?_) (by simp)
      rw [Option.some.inj (hd.symm.trans hsame), hb.1]

theorem give (hx : x.Enters badge g) (hd : g.due = none) {t : Task}
    (hflight : y.inFlight = x.inFlight ++ [(x.nextId, t)]) (hid : y.nextId = x.nextId + 1)
    (hb : ((y.inFlight.map Prod.fst).map badge).Nodup) :
    y.Enters badge (g.give (x.nextId, t)) := by
  have hnew : ∀ f ∈ x.inFlight, f ≠ (x.nextId, t) := by
    rintro f hf rfl
    exact (hx.given _ ((hx.inFlight _).mp hf).1).ne rfl
  refine ⟨?_, ?_, ?_, ?_, hb, ?_, ?_⟩
  · refine List.nodup_cons.mpr ⟨fun hmem => ?_, hx.nodup⟩
    obtain ⟨f, hf, he⟩ := List.mem_map.mp hmem
    exact (hx.given f hf).ne he
  · intro f hf
    rw [hid]
    rcases List.mem_cons.mp hf with rfl | hf
    · exact Nat.lt_succ_self _
    · exact Nat.lt_succ_of_lt (hx.given f hf)
  · intro id hback
    rw [hid]
    exact Nat.lt_succ_of_lt (hx.back id hback)
  · intro f
    rw [hflight, List.mem_append, List.mem_singleton, hx.inFlight]
    constructor
    · rintro (⟨hf, hback⟩ | rfl)
      · exact ⟨List.mem_cons_of_mem _ hf, hback⟩
      · exact ⟨List.mem_cons_self, fun hback => (hx.back _ hback).ne rfl⟩
    · rintro ⟨hf, hback⟩
      rcases List.mem_cons.mp hf with rfl | hf
      · exact .inr rfl
      · exact .inl ⟨hf, hback⟩
  · intro f hf
    obtain rfl : (x.nextId, t) = f := Option.some.inj hf
    rw [hflight]
    exact List.mem_append_right _ List.mem_cons_self
  · intro k u
    refine (hx.entries k u).trans ?_
    rw [hflight, hd]
    constructor
    · rintro ⟨f, hf, -, hu⟩
      exact ⟨f, List.mem_append_left _ hf, fun he => hnew f hf (Option.some.inj he).symm, hu⟩
    · rintro ⟨f, hf, hne, hu⟩
      rcases List.mem_append.mp hf with hf | hf
      · exact ⟨f, hf, by simp, hu⟩
      · exact absurd (congrArg some (List.mem_singleton.mp hf).symm) hne

theorem strikeOut (hx : x.Enters badge g) (hd : g.due = none) {id : Nat} {t : Task}
    (ht : (id, t) ∈ x.inFlight)
    (hflight : y.inFlight = x.inFlight.filter (fun f => f.1 != id)) (hid : y.nextId = x.nextId)
    (hb : ((y.inFlight.map Prod.fst).map badge).Nodup) :
    y.Enters badge (g.strikeOut badge id) := by
  have hstill : ∀ f, f ∈ y.inFlight ↔ f ∈ x.inFlight ∧ f.1 ≠ id := by
    intro f
    rw [hflight, List.mem_filter, bne_iff_ne]
  refine ⟨hx.nodup, hid ▸ hx.given, ?_, ?_, hb, ?_, ?_⟩
  · intro i hback
    rw [hid]
    rcases List.mem_cons.mp hback with rfl | hback
    · exact hx.given _ ((hx.inFlight _).mp ht).1
    · exact hx.back i hback
  · intro f
    rw [hstill, hx.inFlight, Register.strikeOut, List.mem_cons, not_or, and_assoc,
      and_comm (a := f.1 ≠ id)]
  · intro f hf
    rw [Register.strikeOut, hd] at hf
    cases hf
  · intro k u
    simp only [Register.strikeOut, Std.HashMap.getElem?_erase, beq_iff_eq]
    split
    · next hk =>
        refine iff_of_false (by simp) ?_
        rintro ⟨f, hf, -, hb, -⟩
        obtain ⟨hf, hne⟩ := (hstill f).mp hf
        exact hne (congrArg Prod.fst (hx.eq_of_badge hf ht (hb.trans hk.symm)))
    · next hk =>
        rw [hx.entries k u]
        refine exists_congr fun f => ⟨?_, ?_⟩
        · rintro ⟨hf, hdue, hb, hu⟩
          exact ⟨(hstill f).mpr ⟨hf, fun he => hk (he ▸ hb)⟩, hdue, hb, hu⟩
        · rintro ⟨hf, hdue, hb, hu⟩
          exact ⟨((hstill f).mp hf).1, hdue, hb, hu⟩

/-- With nobody left to be entered, everybody in flight is in the register. -/
theorem getElem?_entries (hx : x.Enters badge g) (hd : g.due = none) {id : Nat} {t : Task}
    (ht : (id, t) ∈ x.inFlight) : g.entries[badge id]? = some t :=
  (hx.entries _ _).mpr ⟨_, ht, by simp [hd], rfl, rfl⟩

theorem mem_entries_iff (hx : x.Enters badge g) (hd : g.due = none) {k : κ} :
    k ∈ g.entries ↔ ∃ id ∈ x.inFlight.map Prod.fst, badge id = k := by
  rw [Std.HashMap.mem_iff_isSome_getElem?, Option.isSome_iff_exists]
  constructor
  · rintro ⟨t, ht⟩
    obtain ⟨f, hf, -, hb, -⟩ := (hx.entries k t).mp ht
    exact ⟨f.1, List.mem_map_of_mem hf, hb⟩
  · rintro ⟨id, hid, rfl⟩
    obtain ⟨f, hf, rfl⟩ := List.mem_map.mp hid
    exact ⟨f.2, hx.getElem?_entries hd hf⟩

theorem mem_inFlight_iff (hx : x.Enters badge g) {id : Nat} :
    id ∈ x.inFlight.map Prod.fst ↔ id ∈ g.given.map Prod.fst ∧ id ∉ g.back := by
  constructor
  · intro hid
    obtain ⟨f, hf, rfl⟩ := List.mem_map.mp hid
    obtain ⟨hg, hb⟩ := (hx.inFlight f).mp hf
    exact ⟨List.mem_map_of_mem hg, hb⟩
  · rintro ⟨hid, hb⟩
    obtain ⟨f, hg, rfl⟩ := List.mem_map.mp hid
    exact List.mem_map_of_mem ((hx.inFlight f).mpr ⟨hg, hb⟩)

end State.Enters

theorem Registered.enters (h : Registered s set policy cancelled badge x g) :
    x.Enters badge g := by
  induction h with
  | start =>
      constructor <;> simp [Register.empty, State.start]
  | enter h hd ih => exact ih.enter hd
  | other h hl hs ih =>
      obtain ⟨hflight, hid⟩ := (moves_of_step? hs).inFlight_eq hl
      exact ih.of_eq hflight hid
  | @dispatcher x y g h hd hs hb ih =>
      have hr := h.reachable.hasRoster
      have hbadges := (h.reachable.step hs).hasRoster.hasBadges_iff.mp hb
      rw [State.register]
      rcases (dispatches_of_dispatchStep? hs).register_cases hr with
        ⟨id, e, rest, hf, hback, hflight, hid⟩ | ⟨t, hback, hnew, hflight, hid⟩ |
          ⟨hback, hnew, hflight, hid⟩
      · rw [hback]
        obtain ⟨t, ht⟩ := hr.exists_task (State.mem_jobs_of_finished (hf ▸ List.mem_cons_self))
        exact ih.strikeOut hd ht hflight hid hbadges
      · rw [hback, hnew]
        exact ih.give hd hflight hid hbadges
      · rw [hback, hnew]
        exact ih.of_eq hflight hid

/-! ## Nobody is unknown -/

theorem State.dispatchStep?_of_head {k : Resume} {id : Nat} {e : Exit} {rest : List (Nat × Exit)}
    (hd : LooksForWorkers x.dispatch k) (hf : x.finished = (id, e) :: rest) :
    x.dispatchStep? = some ({ x with finished := rest }.reap id e k) := by
  unfold dispatchStep?
  generalize x.dispatch = d at hd
  cases hd <;> simp only [hf]

/-- A worker that is taken back is known: its result, or its failure if it broke off, comes up next
and is about its task. -/
theorem State.HasRoster.exists_takeBack (hr : x.HasRoster) {k : Resume} {id : Nat} {e : Exit}
    {rest : List (Nat × Exit)} {t : Task} (hd : LooksForWorkers x.dispatch k)
    (hf : x.finished = (id, e) :: rest) (ht : (id, t) ∈ x.inFlight) :
    ∃ y r b, step? s x .dispatcher = some y ∧ y.dispatch = .delivering r b k ∧ r.task = t ∧
      ∀ words, e = .aborted words → r = .failure t (abortFailure words) 0 := by
  have hstep : step? s x .dispatcher = some ({ x with finished := rest }.reap id e k) :=
    State.dispatchStep?_of_head hd hf
  cases e with
  | done r =>
      have hin : (id, r.task) ∈ x.inFlight := hr.settled _ (hf ▸ List.mem_cons_self) r rfl
      have hsame := List.inj_on_of_nodup_map hr.nodup hin ht rfl
      exact ⟨_, r, true, hstep, rfl, (Prod.mk.inj hsame).2, by simp⟩
  | aborted words =>
      have hlookup : x.inFlight.lookup id = some t := hr.lookup_eq_some_iff.mpr ht
      refine ⟨_, .failure t (abortFailure words) 0, false, hstep, ?_, rfl, ?_⟩
      · simp only [State.reap, hlookup]
      · intro words' he
        cases he
        rfl

/-- Whenever the dispatcher waits, whatever the timing, the answers and the panics: the badges in the
register are those of the workers that were given a task and not taken back, each with the task that
this worker was given. So a worker that is taken back is always known and its task gets a result,
and nobody is left in the register when the dispatcher has ended. -/
theorem Registered.knows_workers (h : Registered s set policy cancelled badge x g)
    (hd : g.due = none) :
    (∀ k, k ∈ g.entries ↔ ∃ id ∈ x.jobs.map Prod.fst, badge id = k) ∧
    (g.given.map Prod.fst).Nodup ∧
    (∀ id, id ∈ x.jobs.map Prod.fst ↔ id ∈ g.given.map Prod.fst ∧ id ∉ g.back) ∧
    (∀ id t, (id, t) ∈ g.given → id ∉ g.back → g.entries[badge id]? = some t) ∧
    (∀ id t, x.inFlight.lookup id = some t ↔ (id, t) ∈ g.given ∧ id ∉ g.back) ∧
    (∀ k id e rest, LooksForWorkers x.dispatch k → x.finished = (id, e) :: rest →
      ∃ t y r b, (id, t) ∈ g.given ∧ g.entries[badge id]? = some t ∧
        step? s x .dispatcher = some y ∧ y.dispatch = .delivering r b k ∧ r.task = t ∧
        ∀ words, e = .aborted words → r = .failure t (abortFailure words) 0) ∧
    (x.dispatch = .ended → g.entries.isEmpty = true ∧ x.inFlight = []) := by
  have hx := h.enters
  have hr := h.reachable.hasRoster
  refine ⟨fun k => ?_, hx.nodup, fun id => ?_, fun id t hg hb => ?_, fun id t => ?_,
    fun k id e rest hlook hf => ?_, fun he => ?_⟩
  · rw [hx.mem_entries_iff hd]
    exact exists_congr fun id => and_congr_left fun _ => hr.mem_jobs_iff.symm
  · rw [hr.mem_jobs_iff, hx.mem_inFlight_iff]
  · exact hx.getElem?_entries hd ((hx.inFlight _).mpr ⟨hg, hb⟩)
  · rw [hr.lookup_eq_some_iff]
    exact hx.inFlight (id, t)
  · obtain ⟨t, ht⟩ := hr.exists_task (State.mem_jobs_of_finished (hf ▸ List.mem_cons_self))
    obtain ⟨y, r, b, hy⟩ := hr.exists_takeBack (s := s) hlook hf ht
    exact ⟨t, y, r, b, ((hx.inFlight _).mp ht).1, hx.getElem?_entries hd ht, hy⟩
  · have hnone := h.reachable.inFlight_of_ended he
    refine ⟨Std.HashMap.isEmpty_iff_forall_not_mem.mpr fun k hk => ?_, hnone⟩
    obtain ⟨id, hid, -⟩ := (hx.mem_entries_iff hd).mp hk
    rw [hnone] at hid
    cases hid

/-- The first worker and the third one break off before they are entered. The third one gets the
badge of the first one, which was taken back, while the second one is still about. -/
def reusedBadge : List (Option Label) :=
  (timing [(2, .aggregator), (5, .dispatcher), (6, .aggregator), (1, .dispatcher), (1, .begin 0),
    (1, .answer 0 (.panic "broken")), (1, .settle 0)]).map some ++ none ::
  (timing [(4, .dispatcher), (4, .aggregator), (4, .dispatcher), (6, .aggregator),
    (1, .dispatcher)]).map some ++ none ::
  (timing [(1, .begin 1), (5, .dispatcher), (6, .aggregator), (1, .dispatcher), (1, .begin 2),
    (1, .answer 2 (.panic "broken")), (1, .settle 2)]).map some ++ [none, some .dispatcher]

theorem knows_workers_of_reusedBadge :
    ∃ x g, Registered pair threeImages ⟨.mirrorToMirror, false⟩ false (· % 2) x g ∧
      g.due = none ∧ g.back = [0] ∧ LooksForWorkers x.dispatch .drain ∧
      x.finished = [(2, .aborted "broken")] ∧ g.entries[1]? = some (plainImage "b") ∧
      g.entries[0]? = some (plainImage "c") ∧
      ∃ y b, step? pair x .dispatcher = some y ∧
        y.dispatch = .delivering (.failure (plainImage "c") (abortFailure "broken") 0) b .drain := by
  have hrun : ((registered? pair (· % 2)
      (State.start pair threeImages ⟨.mirrorToMirror, false⟩ false) .empty reusedBadge).map
        fun p => (decide (p.2.due = none ∧ p.2.back = [0] ∧ p.1.dispatch = .draining),
          p.2.given, p.1.finished)) =
      some (true, [(2, plainImage "c"), (1, plainImage "b"), (0, plainImage "a")],
        [(2, .aborted "broken")]) := by
    decide +kernel
  obtain ⟨⟨x, g⟩, hx, hends⟩ := Option.map_eq_some_iff.mp hrun
  simp only [Prod.mk.injEq, decide_eq_true_eq] at hends
  obtain ⟨⟨hdue, hback, hdispatch⟩, hgiven, hfinished⟩ := hends
  have hregistered := Registered.start.of_registered? hx
  have hlook : LooksForWorkers x.dispatch .drain := hdispatch ▸ .draining
  obtain ⟨-, -, -, hentry, -, hknown, -⟩ := hregistered.knows_workers hdue
  have hsecond := hentry 1 (plainImage "b") (by simp [hgiven]) (by simp [hback])
  have hthird := hentry 2 (plainImage "c") (by simp [hgiven]) (by simp [hback])
  obtain ⟨t, y, r, b, -, ht, hs, hy, htask, hfailed⟩ := hknown _ _ _ _ hlook hfinished
  obtain rfl : t = plainImage "c" := Option.some.inj (ht.symm.trans hthird)
  rw [hfailed "broken" rfl] at hy
  exact ⟨x, g, hregistered, hdue, hback, hlook, hfinished, hsecond, hthird, y, b, hs, hy⟩

end ImageBatch.Engine
