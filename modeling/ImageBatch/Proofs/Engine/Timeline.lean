import ImageBatch.Engine.Timeline
import ImageBatch.Proofs.Engine.Moves

/-!
# Timelines are runs

The clock only puts the steps of the engine in an order. Whatever a timeline does, it takes steps of
the engine, so its state is one that a run can come to.
-/

namespace ImageBatch.Engine

/-- Every timeline to which something leads has a property. -/
def Next.All (P : Timeline → Prop) : Next → Prop
  | .over => True
  | .move t => P t
  | .ask _ k => ∀ c, P (k c)
  | .wait _ t => P t

/-! ## What has happened stays told -/

section

variable {s : Settings} {x y : State} {l : Label}

theorem Dispatches.happenings_suffix (h : Dispatches x y) : x.happenings <:+ y.happenings := by
  cases h with
  | giveUp | recover | bypass | skip | discard => exact List.suffix_cons _ _
  | _ => exact List.suffix_rfl

theorem Works.happenings_suffix (h : Works s x l y) : x.happenings <:+ y.happenings := by
  cases h with
  | abort | settle => exact List.suffix_rfl
  | _ => exact List.suffix_cons _ _

theorem Moves.happenings_suffix (h : Moves s x l y) : x.happenings <:+ y.happenings := by
  cases h with
  | cancel | aggregator => exact List.suffix_rfl
  | dispatcher h => exact h.happenings_suffix
  | worker h => exact h.happenings_suffix

theorem happenings_suffix_of_steps? {ls : List Label} (h : steps? s x ls = some y) :
    x.happenings <:+ y.happenings := by
  refine steps?_induction (P := fun x _ => x.happenings <:+ y.happenings) List.suffix_rfl ?_ h
  intro x z l ls hz ih
  exact (moves_of_step? hz).happenings_suffix.trans ih

end

/-! ## Timelines take steps -/

/-- A timeline comes from another one by steps of the engine. -/
structure Timeline.Follows (t u : Timeline) : Prop where
  settings_eq : u.settings = t.settings
  steps : ∃ ls, steps? t.settings t.state ls = some u.state

namespace Timeline.Follows

variable {t u v : Timeline} {l : Label} {x : State}

theorem of_eq (hs : u.settings = t.settings) (hx : u.state = t.state) : t.Follows u :=
  ⟨hs, [], by rw [hx]; rfl⟩

theorem trans (h : t.Follows u) (h' : u.Follows v) : t.Follows v := by
  obtain ⟨ls, hls⟩ := h.steps
  obtain ⟨ls', hls'⟩ := h'.steps
  rw [h.settings_eq] at hls'
  refine ⟨h'.settings_eq.trans h.settings_eq, ls ++ ls', ?_⟩
  rw [steps?_append, hls]
  exact hls'

theorem step (hx : step? t.settings t.state l = some x) :
    t.Follows { t with state := x } := by
  refine ⟨rfl, [l], ?_⟩
  rw [steps?, hx]
  rfl

theorem take (t : Timeline) (l : Label) : t.Follows (t.take l) := by
  unfold Timeline.take
  cases hx : step? t.settings t.state l with
  | none => exact .of_eq rfl rfl
  | some x => exact .step hx

theorem exists_news (h : t.Follows u) :
    ∃ news, u.state.happenings = news ++ t.state.happenings := by
  obtain ⟨ls, hls⟩ := h.steps
  obtain ⟨news, hnews⟩ := happenings_suffix_of_steps? hls
  exact ⟨news, hnews.symm⟩

theorem rouse (t : Timeline) (id : Nat) : t.Follows (t.rouse id) :=
  (take t _).trans (.of_eq rfl rfl)

theorem setWake (t : Timeline) (id : Nat) : t.Follows (t.setWake id) := by
  unfold Timeline.setWake
  split
  · split
    · exact rouse t id
    · exact .of_eq rfl rfl
  · exact .of_eq rfl rfl

theorem ring (t : Timeline) (b : Bell) : t.Follows (t.ring b) := by
  cases b with
  | cancel => exact take t _
  | wake id => exact rouse t id
  | answer id a cancels =>
      refine Follows.trans ?_ ((take _ _).trans (setWake _ _))
      split
      · exact take t _
      · exact .of_eq rfl rfl

theorem setAnswer (t : Timeline) (id : Nat) (c : Call) : t.Follows (t.setAnswer id c) := by
  unfold Timeline.setAnswer
  split
  · exact ring t _
  · exact .of_eq rfl rfl

theorem passTime (t : Timeline) : t.passTime.All t.Follows := by
  unfold Timeline.passTime
  split
  · trivial
  · rename_i a rest ha
    let u : Timeline := { t with now := ⟨max t.now.nanos a.time.nanos⟩, alarms := rest }
    have hu : t.Follows u := .of_eq rfl rfl
    exact hu.trans (ring u _)

theorem next (t : Timeline) : t.next.All t.Follows := by
  unfold Timeline.next
  split
  · intro c
    have hu : t.Follows { t with calling := none } := .of_eq rfl rfl
    exact hu.trans (setAnswer _ _ c)
  · split
    · trivial
    · split
      · exact take t _
      · split
        · rename_i hx
          exact .step hx
        · split
          · exact (take t _).trans (.of_eq rfl rfl)
          · split
            · rename_i hx
              exact .step hx
            · split
              · exact (take t _).trans (.of_eq rfl rfl)
              · exact passTime t

end Timeline.Follows

/-! ## Timelines stay runs -/

/-- A timeline whose state a run of the set can come to. -/
structure Timeline.IsRun (s : Settings) (set : TaskSet) (policy : SkipPolicy) (cancelled : Bool)
    (t : Timeline) : Prop where
  settings_eq : t.settings = s
  reachable : Reachable s set policy cancelled t.state

namespace Timeline.IsRun

variable {s : Settings} {set : TaskSet} {policy : SkipPolicy} {cancelled : Bool} {t u : Timeline}

theorem follow (h : t.IsRun s set policy cancelled) (hu : t.Follows u) :
    u.IsRun s set policy cancelled := by
  obtain ⟨ls, hls⟩ := hu.steps
  rw [h.settings_eq] at hls
  exact ⟨hu.settings_eq.trans h.settings_eq, h.reachable.of_steps? hls⟩

/-- A timeline stays a run, whatever the world answers and however long it is driven. -/
theorem drive {σ : Type} (w : World (StateM σ)) (h : t.IsRun s set policy cancelled) (fuel : Nat)
    (e : σ) : (t.drive w fuel e).1.IsRun s set policy cancelled := by
  induction fuel generalizing t e with
  | zero => exact h
  | succ fuel ih =>
      have hall := Follows.next t
      unfold Timeline.drive
      rcases hnext : t.next with _ | u | ⟨r, k⟩ | ⟨d, u⟩ <;> rw [hnext] at hall
      · exact h
      · exact ih (h.follow hall) _
      · exact ih (h.follow (hall _)) _
      · exact ih (h.follow hall) _

end Timeline.IsRun

theorem Timeline.isRun_start (s : Settings) (set : TaskSet) (policy : SkipPolicy)
    (cancelled : Bool) (now : Span) (alarms : List Alarm) :
    (Timeline.start s set policy cancelled now alarms).IsRun s set policy cancelled :=
  ⟨rfl, .start⟩

end ImageBatch.Engine
