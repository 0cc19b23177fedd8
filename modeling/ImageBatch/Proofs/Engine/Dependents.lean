import ImageBatch.Proofs.Engine.Consultation
import ImageBatch.Proofs.Engine.Slots
import ImageBatch.Proofs.Skip
import ImageBatch.Proofs.TaskSet

/-!
# Bundles behind an image that failed

A bundle is given up when the dispatcher asks about it after the failure of an image that it needs
is on the stream. With one slot that is so whenever the worker of the image does not break off. With
more slots the bundle may be copied while the image is still under way.
-/

namespace ImageBatch

/-- The failure of an image is one of a bundle that comes later. -/
structure TaskSet.Blocks (set : TaskSet) (d b : Task) : Prop where
  before : [d, b].Sublist set.tasks
  bundle : b.kind = .operatorBundle
  linked : ∃ n ∈ set.linkedBundles d, n = b.origin ∨ n ∈ set.linkedBundles b

namespace Engine

variable {s : Settings} {set : TaskSet} {policy : SkipPolicy} {cancelled : Bool} {x y : State}
  {l : Label} {t d b : Task} {r : Result} {c : Consultation} {cs : List Consultation}

/-! ## Tasks are taken up in their order -/

/-- The task whose turn it is. -/
def Dispatch.turn : Dispatch → List Task
  | .choosing t _ => [t]
  | .asking t => [t]
  | .waiting t => [t]
  | .delivering _ _ k => k.held
  | _ => []

/-- The tasks that the dispatcher has not settled, in their order. -/
def State.ahead (x : State) : List Task := x.dispatch.turn ++ x.pending

@[simp] theorem Resume.turn_target (k : Resume) : k.target.turn = k.held := by
  cases k <;> rfl

theorem LooksForWorkers.turn {d : Dispatch} {k : Resume} (h : LooksForWorkers d k) :
    d.turn = k.held := by
  cases h <;> rfl

theorem LearnsToProceed.turn {reply : Option Reply} (h : LearnsToProceed x t reply) :
    x.dispatch.turn = [t] := by
  rcases h.dispatch_eq with hd | hd <;> rw [hd] <;> rfl

theorem Dispatches.ahead_suffix (h : Dispatches x y) : y.ahead <:+ x.ahead := by
  unfold State.ahead
  cases h with
  | takeUp hd hp =>
      rw [hd, hp]
      exact List.suffix_refl _
  | runOut hd | goOn hd | noneOver hd | acquire hd | fallAsleep hd | wake hd | ask hd | discarded hd
  | finish hd =>
      rw [hd]
      exact List.suffix_refl _
  | close hd ho => exact List.suffix_refl _
  | giveUp hd | bypass hd | skip hd =>
      rw [hd]
      exact List.suffix_cons _ _
  | discard hd hp =>
      rw [hp]
      exact (List.suffix_cons _ _).trans (List.suffix_append _ _)
  | forward hd | recover hd =>
      rw [hd.turn]
      exact List.suffix_refl _
  | forget hd => simp [hd.turn]
  | spawn hl =>
      rw [hl.turn]
      exact List.suffix_cons _ _
  | deliver hd | deliverInVain hd =>
      rw [hd, Resume.turn_target]
      exact List.suffix_refl _

theorem Reachable.ahead_suffix (h : Reachable s set policy cancelled x) :
    x.ahead <:+ set.tasks := by
  refine Reachable.induction (P := fun x => x.ahead <:+ set.tasks) ?_ ?_ h
  · rcases State.dispatch_start s set policy cancelled with hd | hd
    all_goals
      rw [State.ahead, hd]
      exact List.suffix_refl _
  · intro x l y hx ih hm
    cases hm with
    | cancel hc => exact ih
    | dispatcher hm => exact hm.ahead_suffix.trans ih
    | aggregator hm => exact ih
    | worker hm => cases hm <;> exact ih

/-- What stands before a member of a list without repetitions does not stand behind it. -/
theorem not_mem_of_sublist {α : Type} {a b : α} {front back : List α}
    (hn : (front ++ b :: back).Nodup) (h : [a, b].Sublist (front ++ b :: back)) : a ∉ b :: back := by
  obtain ⟨-, hback, hdisjoint⟩ := List.nodup_append.mp hn
  have hb : b ∉ back := (List.nodup_cons.mp hback).1
  intro ha
  obtain ⟨l₁, l₂, hsplit, h₁, h₂⟩ := List.sublist_append_iff.mp h
  cases l₁ with
  | cons c l₁ =>
      rw [List.cons_append] at hsplit
      obtain ⟨rfl, -⟩ := List.cons.inj hsplit
      exact hdisjoint _ (h₁.subset List.mem_cons_self) _ ha rfl
  | nil =>
      rw [List.nil_append] at hsplit
      subst hsplit
      rcases List.sublist_cons_iff.mp h₂ with h₂ | ⟨r, hr, h₂⟩
      · exact hb (h₂.subset (List.mem_cons_of_mem _ List.mem_cons_self))
      · rw [← (List.cons.inj hr).2] at h₂
        exact hb (h₂.subset List.mem_cons_self)

/-- While the dispatcher asks about a task, each one before it has a result on the stream or is in
flight. -/
theorem Reachable.sent_or_inFlight (h : Reachable s set policy cancelled x)
    (hn : set.tasks.Nodup) (hd : x.dispatch = .asking b) (hbefore : [d, b].Sublist set.tasks) :
    (∃ r ∈ x.sent, r.task = d) ∨ ∃ id, (id, d) ∈ x.inFlight := by
  have hahead : x.ahead = b :: x.pending := by rw [State.ahead, hd]; rfl
  obtain ⟨front, hfront⟩ := h.ahead_suffix
  rw [hahead] at hfront
  have hlate : d ∉ b :: x.pending := not_mem_of_sublist (hfront ▸ hn) (hfront ▸ hbefore)
  have hin : d ∈ x.account :=
    h.account_perm.mem_iff.mpr (hbefore.subset List.mem_cons_self)
  simp only [State.account, hd, Dispatch.held, List.mem_append, List.mem_map] at hin
  rcases hin with ((hsent | hb) | ⟨f, hf, rfl⟩) | hpending
  · exact .inl hsent
  · exact (hlate (List.mem_singleton.mp hb ▸ List.mem_cons_self)).elim
  · exact .inr ⟨f.1, hf⟩
  · exact (hlate (List.mem_cons_of_mem _ hpending)).elim

/-! ## Workers that break off -/

/-- The worker of a task has broken off, whether or not that has been noticed. Its result tells of
no call. -/
inductive State.BrokenOff (x : State) (t : Task) : Prop where
  | unseen {w : Worker} {words : String} (hw : w ∈ x.workers) (ht : w.task = t)
      (hp : w.phase = .over (.aborted words))
  | seen {id : Nat} {words : String} (hf : (id, .aborted words) ∈ x.finished)
      (ht : (id, t) ∈ x.inFlight)
  | reported {r : Result} (hr : r ∈ x.results) (ht : r.task = t) (ha : r.attempts = 0)

theorem Dispatches.results_suffix (h : Dispatches x y) : x.results <:+ y.results := by
  unfold State.results
  cases h with
  | takeUp hd | runOut hd | goOn hd | noneOver hd | acquire hd | fallAsleep hd | wake hd | ask hd
  | discarded hd | finish hd =>
      rw [hd]
      exact List.suffix_refl _
  | close hd ho => exact List.suffix_refl _
  | giveUp hd | bypass hd | skip hd | discard hd =>
      rw [hd]
      exact List.suffix_cons _ _
  | forward hd | recover hd =>
      rw [hd.outgoing]
      exact List.suffix_cons _ _
  | forget hd => simp [hd.outgoing]
  | spawn hl =>
      rcases hl.dispatch_eq with hd | hd <;> rw [hd] <;> exact List.suffix_refl _
  | deliver hd | deliverInVain hd =>
      rw [hd, Resume.outgoing_target]
      exact List.suffix_refl _

theorem State.BrokenOff.takeBack (hb : x.BrokenOff t) (hr : x.HasRoster) {id : Nat} {e : Exit}
    {rest : List (Nat × Exit)} (hf : x.finished = (id, e) :: rest)
    (hworkers : y.workers = x.workers) (hrest : y.finished = rest)
    (hflight : y.inFlight = x.inFlight.filter (fun f => f.1 != id))
    (hresults : x.results <:+ y.results)
    (hreport : ∀ words, e = .aborted words → (id, t) ∈ x.inFlight →
      ∃ r ∈ y.results, r.task = t ∧ r.attempts = 0) : y.BrokenOff t := by
  cases hb with
  | unseen hw ht hp => exact .unseen (hworkers ▸ hw) ht hp
  | reported hr' ht ha => exact .reported (hresults.subset hr') ht ha
  | @seen id' words hf' ht =>
      rw [hf] at hf'
      rcases List.mem_cons.mp hf' with he | hf'
      · obtain ⟨rfl, rfl⟩ := Prod.mk.inj he
        obtain ⟨r, hr', htask, ha⟩ := hreport words rfl ht
        exact .reported hr' htask ha
      · have hids := hr.ids.nodup_iff.mpr hr.nodup
        rw [hf, List.map_cons] at hids
        have hfresh := (List.nodup_cons.mp (List.nodup_append.mp hids).2.1).1
        have hid : id' ∈ rest.map Prod.fst := List.mem_map_of_mem hf'
        have hne : id' ≠ id := by
          intro he
          exact hfresh (he ▸ hid)
        refine .seen (hrest ▸ hf') ?_
        rw [hflight]
        exact List.mem_filter.mpr ⟨ht, by simpa using hne⟩

theorem Dispatches.brokenOff (h : Dispatches x y) (hr : x.HasRoster) (hb : x.BrokenOff t) :
    y.BrokenOff t := by
  have hresults := h.results_suffix
  cases h with
  | forward hd hf =>
      exact hb.takeBack hr hf rfl rfl rfl hresults (by simp)
  | @recover k id words rest u hd hf hlookup =>
      refine hb.takeBack hr hf rfl rfl rfl hresults ?_
      intro words' he ht
      have hsame := List.inj_on_of_nodup_map hr.nodup (mem_of_lookup_eq_some hlookup) ht rfl
      exact ⟨_, List.mem_cons_self, congrArg Prod.snd hsame, rfl⟩
  | forget hd hf hlookup => exact absurd hlookup (hr.lookup_ne_none hf)
  | spawn hl =>
      cases hb with
      | unseen hw ht hp => exact .unseen (List.mem_append_left _ hw) ht hp
      | seen hf ht => exact .seen hf (List.mem_append_left _ ht)
      | reported hr' ht ha => exact .reported (hresults.subset hr') ht ha
  | _ =>
      cases hb with
      | unseen hw ht hp => exact .unseen hw ht hp
      | seen hf ht => exact .seen hf ht
      | reported hr' ht ha => exact .reported (hresults.subset hr') ht ha

theorem mem_map_inPhase {ws : List Worker} {v w : Worker} (hv : v ∈ ws) (hn : (ws.map Worker.id).Nodup)
    (hw : w ∈ ws) (hne : v.phase ≠ w.phase) (p : Phase) : v ∈ ws.map (Worker.inPhase w.id p) := by
  have hid : v.id ≠ w.id := by
    intro he
    exact hne (congrArg Worker.phase (List.inj_on_of_nodup_map hn hv hw he))
  exact (Worker.mem_map_inPhase_iff hid p).mpr hv

theorem Works.brokenOff (h : Works s x l y) (hr : x.HasRoster) (hb : x.BrokenOff t) :
    y.BrokenOff t := by
  cases hb with
  | seen hf ht =>
      cases h with
      | settle hw => exact .seen (List.mem_append_left _ hf) ht
      | begin hw | finish hw | pause hw | abort hw | wake hw | giveUp hw => exact .seen hf ht
  | reported hr' ht ha => cases h <;> exact .reported hr' ht ha
  | @unseen v words hv ht hp =>
      cases h with
      | begin hw hp' | finish hw hp' | pause hw hp' | abort hw hp' | wake hw hp' | giveUp hw hp' =>
          exact .unseen (mem_map_inPhase hv hr.nodup_workers hw (by simp [hp, hp']) _) ht hp
      | @settle w e hw hp' =>
          by_cases he : v.id = w.id
          · cases List.inj_on_of_nodup_map hr.nodup_workers hv hw he
            cases hp.symm.trans hp'
            refine .seen (List.mem_append_right _ List.mem_cons_self) ?_
            exact ht ▸ hr.working v hv
          · exact .unseen (List.mem_filter.mpr ⟨hv, by simpa using he⟩) ht hp

theorem Moves.brokenOff (h : Moves s x l y) (hr : x.HasRoster) (hb : x.BrokenOff t) :
    y.BrokenOff t := by
  cases h with
  | dispatcher hm => exact hm.brokenOff hr hb
  | worker hm => exact hm.brokenOff hr hb
  | cancel hc | aggregator hm =>
      cases hb with
      | unseen hw ht hp => exact .unseen hw ht hp
      | seen hf ht => exact .seen hf ht
      | reported hr' ht ha => exact .reported hr' ht ha

theorem Exit.aborted_of_not_holdsSlot {e : Exit} (h : ¬ e.holdsSlot = true) :
    ∃ words, e = .aborted words := by
  cases e with
  | done r => exact (h rfl).elim
  | aborted words => exact ⟨words, rfl⟩

theorem Worker.aborted_of_not_holdsSlot {w : Worker} (h : ¬ w.holdsSlot = true) :
    ∃ words, w.phase = .over (.aborted words) := by
  unfold Worker.holdsSlot Phase.holdsSlot at h
  split at h
  · rename_i e hp
    obtain ⟨words, rfl⟩ := Exit.aborted_of_not_holdsSlot h
    exact ⟨words, hp⟩
  · exact (h rfl).elim

/-- With one slot, which the dispatcher holds when it asks, a task in flight is one whose worker has
broken off. -/
theorem Reachable.brokenOff_of_inFlight (h : Reachable s set policy cancelled x)
    (hslots : s.slots = 1) (hd : x.dispatch = .asking b) {id : Nat} (hf : (id, d) ∈ x.inFlight) :
    x.BrokenOff d := by
  have hr := h.hasRoster
  have hkeeps := h.keepsSlots
  rw [State.KeepsSlots, State.taken, hd, hslots] at hkeeps
  simp only [Dispatch.slots] at hkeeps
  have hworkers : x.workers.countP Worker.holdsSlot = 0 := by omega
  have hfinished : x.finished.countP (fun f => f.2.holdsSlot) = 0 := by omega
  have hid : id ∈ x.workers.map Worker.id ++ x.finished.map Prod.fst :=
    hr.ids.mem_iff.mpr (List.mem_map_of_mem (f := Prod.fst) hf)
  rcases List.mem_append.mp hid with hid | hid
  · obtain ⟨w, hw, rfl⟩ := List.mem_map.mp hid
    have htask := List.inj_on_of_nodup_map hr.nodup (hr.working w hw) hf rfl
    obtain ⟨words, hp⟩ := Worker.aborted_of_not_holdsSlot (List.countP_eq_zero.mp hworkers w hw)
    exact .unseen hw (congrArg Prod.snd htask) hp
  · obtain ⟨⟨id, e⟩, he, rfl⟩ := List.mem_map.mp hid
    obtain ⟨words, rfl⟩ := Exit.aborted_of_not_holdsSlot (List.countP_eq_zero.mp hfinished _ he)
    exact .seen he hf

/-! ## What is known of an earlier task -/

theorem State.mem_writeDown (hc : c ∈ x.writeDown y cs l) :
    (∃ c' ∈ cs, c'.task = c.task ∧ c'.known = c.known) ∨
      x.dispatch = .asking c.task ∧ c.known = x.sent := by
  unfold writeDown at hc
  split at hc
  · split at hc
    · rename_i t hd
      split at hc
      all_goals
        rcases List.mem_cons.mp hc with rfl | hc
        · exact .inr ⟨hd, rfl⟩
        · exact .inl ⟨c, hc, rfl, rfl⟩
    · rename_i c' cs' hd
      rcases List.mem_cons.mp hc with rfl | hc
      · exact .inl ⟨c', List.mem_cons_self, rfl, rfl⟩
      · exact .inl ⟨c, List.mem_cons_of_mem _ hc, rfl, rfl⟩
    · exact .inl ⟨c, hc, rfl, rfl⟩
  · exact .inl ⟨c, hc, rfl, rfl⟩

/-- With one slot the result of an earlier task is known to the aggregator when the dispatcher asks
about a later one, unless the worker of the earlier one has broken off. -/
theorem Chronicle.known_or_brokenOff (h : Chronicle s set policy cancelled x cs)
    (hslots : s.slots = 1) (hn : set.tasks.Nodup) (hc : c ∈ cs)
    (hbefore : [d, c.task].Sublist set.tasks) :
    (∃ r ∈ c.known, r.task = d) ∨ x.BrokenOff d := by
  induction h generalizing c with
  | start => cases hc
  | @step x y cs l h hs ih =>
      have hx := h.reachable
      have hm := moves_of_step? hs
      -- What is known at a question never changes, and who has broken off stays so; only the moment
      -- of the question matters.
      rcases State.mem_writeDown hc with ⟨c', hc', htask, hknown⟩ | ⟨hd, hknown⟩
      · rcases ih hc' (htask ▸ hbefore) with hr | hb
        · exact .inl (hknown ▸ hr)
        · exact .inr (hm.brokenOff hx.hasRoster hb)
      · rcases hx.sent_or_inFlight hn hd hbefore with hr | ⟨id, hf⟩
        · exact .inl (hknown ▸ hr)
        · exact .inr (hm.brokenOff hx.hasRoster (hx.brokenOff_of_inFlight hslots hd hf))

/-! ## Each task has one result -/

theorem Dispatch.map_task_outgoing (d : Dispatch) : (d.outgoing.map Result.task).Sublist d.held := by
  cases d with
  | delivering r freesSlot k => exact List.singleton_sublist.mpr List.mem_cons_self
  | _ => exact List.nil_sublist _

theorem Reachable.nodup_results (h : Reachable s set policy cancelled x) (hn : set.tasks.Nodup) :
    (x.results.map Result.task ++ x.inFlight.map Prod.snd).Nodup := by
  have haccount := h.account_perm.nodup_iff.mpr hn
  have hrest := haccount.sublist (List.sublist_append_left _ _)
  refine (hrest.perm (List.perm_append_comm.append_right _)).sublist ?_
  rw [State.results, List.map_append]
  exact (x.dispatch.map_task_outgoing.append_right _).append_right _

theorem Reachable.result_eq (h : Reachable s set policy cancelled x) (hn : set.tasks.Nodup)
    {r' : Result} (hr : r ∈ x.results) (hr' : r' ∈ x.results) (he : r.task = r'.task) : r = r' :=
  List.inj_on_of_nodup_map (List.nodup_append.mp (h.nodup_results hn)).1 hr hr' he

/-- A result that tells of a call is not one of a worker that broke off. -/
theorem Reachable.not_brokenOff (h : Reachable s set policy cancelled x) (hn : set.tasks.Nodup)
    (hr : r ∈ x.results) (ha : r.attempts ≠ 0) : ¬ x.BrokenOff r.task := by
  have hapart : ∀ id, (id, r.task) ∉ x.inFlight := by
    intro id hf
    exact (List.nodup_append.mp (h.nodup_results hn)).2.2 _ (List.mem_map_of_mem hr) _
      (List.mem_map_of_mem (f := Prod.snd) hf) rfl
  intro hb
  cases hb with
  | unseen hw ht hp => exact hapart _ (ht ▸ h.hasRoster.working _ hw)
  | seen hf ht => exact hapart _ ht
  | reported hr' ht ha' => exact ha (h.result_eq hn hr hr' ht.symm ▸ ha')

/-! ## Bundles are spared -/

/-- If the failure of the image was on the stream, the bundle was not to be worked on. -/
theorem State.Fits.not_proceed (hx : x.Fits set policy cs) (hc : c ∈ cs)
    (hb : set.Blocks r.task c.task) (hr : r ∈ c.known) {f : Failure} (hf : r.ending = .failed f) :
    c.hearing ≠ .told .proceed := by
  obtain ⟨n, hn, hit⟩ := hb.linked
  have hrecord : Tally.record? set r = some (Tally.recordOf set r.task .failed f) := by
    simp [Tally.record?, hf]
  have hprior : Tally.recordOf set r.task .failed f ∈
      c.known.reverse.filterMap (Tally.record? set) :=
    List.mem_filterMap.mpr ⟨r, List.mem_reverse.mpr hr, hrecord⟩
  obtain ⟨reason, hskip⟩ := SkipPolicy.exists_decide_eq_skip_iff.mpr
    ⟨hb.bundle, _, hprior, n, hn, hit⟩
  rcases hx.isSound hc with ⟨hawaited, -⟩ | hsound
  · rw [hawaited]
    simp
  · rw [Consultation.IsSound, hskip] at hsound
    rw [hsound]
    simp

/-- A bundle that nobody was hired for is not called for and has no result but a skip. -/
theorem State.Fits.spares (hx : x.Fits set policy cs) (hs : x.HasStream set policy)
    (hnone : ∀ c ∈ cs, c.task = b → c.hearing ≠ .told .proceed) :
    (∀ i ∈ x.calls, i.task ≠ b) ∧ b ∉ x.aggregator.tally.succeeded ∧
      ∀ r ∈ x.sent, r.task = b → r.isSkip = true := by
  have hskip : ∀ r ∈ x.sent, r.task = b → r.isSkip = true := by
    intro r hr ht
    rcases hx.results r (List.mem_append_right _ hr) with hskip | ⟨c, hc, id, -, htask, htold⟩
    · exact hskip
    · exact (hnone c hc (htask.trans ht) htold).elim
  refine ⟨?_, ?_, hskip⟩
  · intro i hi ht
    obtain ⟨c, hc, -, htask, htold⟩ := hx.calls i hi
    exact hnone c hc (htask.trans ht) htold
  · intro hb
    obtain ⟨taken, hsent, htally⟩ := hs.taken
    rw [htally, Tally.succeeded_addAll] at hb
    simp only [Tally.start, List.nil_append, List.mem_map, List.mem_filter] at hb
    obtain ⟨r, ⟨hr, hsuccess⟩, ht⟩ := hb
    have hin : r ∈ x.sent := by
      rw [← List.mem_reverse, hsent]
      exact List.mem_append_left _ hr
    have hends := hskip r hin ht
    simp only [Result.isSuccess, beq_iff_eq] at hsuccess
    simp [Result.isSkip, hsuccess] at hends

/-- With one slot a result that tells of a call was on the stream when the dispatcher asked about a
later task. -/
theorem Chronicle.mem_known (h : Chronicle s set policy cancelled x cs) (hslots : s.slots = 1)
    (hn : set.tasks.Nodup) (hr : r ∈ x.sent) (ha : r.attempts ≠ 0) (hc : c ∈ cs)
    (hbefore : [r.task, c.task].Sublist set.tasks) : r ∈ c.known := by
  have hx := h.reachable
  have hin : r ∈ x.results := List.mem_append_right _ hr
  rcases h.known_or_brokenOff hslots hn hc hbefore with ⟨r', hr', ht⟩ | hbroken
  · have hin' : r' ∈ x.results := List.mem_append_right _ ((h.fits.known c hc).subset hr')
    rwa [hx.result_eq hn hin hin' ht.symm]
  · exact (hx.not_brokenOff hn hin ha hbroken).elim

/-- A bundle behind an image that failed is spared if the failure was on the stream when the
dispatcher asked about the bundle. With one slot it was there, unless the worker of the image broke
off. -/
theorem Chronicle.spares_bundle (h : Chronicle s set policy cancelled x cs)
    (hset : set.fault? = none) (hb : set.Blocks d b) (hr : r ∈ x.sent) (ht : r.task = d)
    {f : Failure} (hf : r.ending = .failed f)
    (hknown : (∀ c ∈ cs, c.task = b → r ∈ c.known) ∨ s.limit ≤ 1 ∧ r.attempts ≠ 0) :
    (∀ i ∈ x.calls, i.task ≠ b) ∧ b ∉ x.aggregator.tally.succeeded ∧
      ∀ r' ∈ x.sent, r'.task = b → r'.isSkip = true := by
  subst ht
  apply h.fits.spares h.reachable.hasStream
  rintro c hc rfl
  have hheard : r ∈ c.known := by
    rcases hknown with hknown | ⟨hlimit, ha⟩
    · exact hknown c hc rfl
    · exact h.mem_known (Nat.max_eq_right hlimit) (TaskSet.nodup_tasks hset) hr ha hc hb.before
  exact h.fits.not_proceed hc hb hheard hf

def neededImage : Task := { plainImage "a" with bundles := .ofList ["b"] }

def needyBundle : Task := { plainImage "b" with kind := .operatorBundle }

def denied : Result := .failure neededImage ⟨.auth, "denied"⟩ 1

theorem bundleBehind_blocks : bundleBehind.Blocks neededImage needyBundle := by
  refine ⟨?_, rfl, "b", ?_, .inl rfl⟩
  · decide
  · decide

/-- With one slot the bundle is passed over, and the image that nobody needs is copied. -/
theorem spares_bundle_of_one_slot :
    ∃ x cs, Chronicle frugal bundleBehind ⟨.mirrorToMirror, false⟩ false x cs ∧
      bundleBehind.fault? = none ∧ bundleBehind.Blocks neededImage needyBundle ∧
      x.dispatch = .ended ∧ denied ∈ x.sent ∧ frugal.limit ≤ 1 ∧ denied.attempts ≠ 0 ∧
      (∀ i ∈ x.calls, i.task ≠ needyBundle) ∧ needyBundle ∉ x.aggregator.tally.succeeded ∧
      ∀ r ∈ x.sent, r.task = needyBundle → r.isSkip = true := by
  have hrun : ((chronicle? frugal (State.start frugal bundleBehind ⟨.mirrorToMirror, false⟩ false) []
      (timing [(5, .dispatcher), (5, .aggregator), (5, .dispatcher), (1, .begin 0),
        (1, .answer 0 (.failure ⟨.auth, "denied"⟩)), (1, .settle 0), (8, .dispatcher),
        (7, .aggregator), (7, .dispatcher), (7, .aggregator), (2, .dispatcher), (1, .begin 1),
        (1, .answer 1 .success), (1, .settle 1), (3, .dispatcher), (2, .aggregator)])).map
          (fun p => (p.1.dispatch, decide (denied ∈ p.1.sent)))) = some (.ended, true) := by
    decide +kernel
  obtain ⟨⟨x, cs⟩, hx, hends⟩ := Option.map_eq_some_iff.mp hrun
  obtain ⟨hended, hsent⟩ := Prod.mk.inj hends
  have hchronicle := Chronicle.start.of_chronicle? hx
  have hfault : bundleBehind.fault? = none := by decide
  have hlimit : frugal.limit ≤ 1 := by decide
  have hattempts : denied.attempts ≠ 0 := by decide
  have hdenied : denied ∈ x.sent := of_decide_eq_true hsent
  exact ⟨x, cs, hchronicle, hfault, bundleBehind_blocks, hended, hdenied, hlimit, hattempts,
    hchronicle.spares_bundle hfault bundleBehind_blocks hdenied rfl rfl
      (.inr ⟨hlimit, hattempts⟩)⟩

def twoSlots : Settings := { frugal with limit := 2 }

/-- With two slots the dispatcher may ask about the bundle while the call for the image is under
way. Then the bundle is copied, and the image fails. -/
theorem copies_bundle_of_two_slots :
    ∃ x, Reachable twoSlots bundleBehind ⟨.mirrorToMirror, false⟩ false x ∧
      bundleBehind.fault? = none ∧ bundleBehind.Blocks neededImage needyBundle ∧
      x.dispatch = .ended ∧ denied ∈ x.sent ∧ (∃ i ∈ x.calls, i.task = needyBundle) ∧
      needyBundle ∈ x.aggregator.tally.succeeded := by
  have hrun : ((steps? twoSlots (State.start twoSlots bundleBehind ⟨.mirrorToMirror, false⟩ false)
      (timing [(5, .dispatcher), (5, .aggregator), (6, .dispatcher), (6, .aggregator),
        (5, .dispatcher), (1, .begin 0), (1, .begin 1), (1, .answer 1 .success),
        (1, .answer 0 (.failure ⟨.auth, "denied"⟩)), (1, .settle 1), (1, .settle 0),
        (11, .dispatcher), (8, .aggregator), (2, .dispatcher), (1, .begin 2),
        (1, .answer 2 .success), (1, .settle 2), (3, .dispatcher), (2, .aggregator)])).map
          (fun x => (x.dispatch, decide (denied ∈ x.sent ∧ (∃ i ∈ x.calls, i.task = needyBundle) ∧
            needyBundle ∈ x.aggregator.tally.succeeded)))) = some (.ended, true) := by
    decide +kernel
  obtain ⟨x, hx, hends⟩ := Option.map_eq_some_iff.mp hrun
  obtain ⟨hended, hcopied⟩ := Prod.mk.inj hends
  have hfault : bundleBehind.fault? = none := by decide
  exact ⟨x, Reachable.start.of_steps? hx, hfault, bundleBehind_blocks, hended,
    of_decide_eq_true hcopied⟩

end Engine

end ImageBatch
