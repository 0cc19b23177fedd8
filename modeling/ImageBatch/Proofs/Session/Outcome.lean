import ImageBatch.Program
import ImageBatch.Proofs.Session.OnHost

/-!
# How a session ends

A session gives back a report of each of its runs, and the last one decides. A failure is given back
only when no attempt is left or the session is cancelled.
-/

namespace ImageBatch.Session

variable {ω σ η : Type} [Host (StateM σ) η] {o : Outside ω σ} {p : Plan} {r : Report}
  {rs : List Report}

/-! ## Well-formed sessions -/

/-- The reports of a session of at most so many attempts, after the first few: each attempt has its
number, every one before the last has failed outright, and the last one has not, unless no attempt
is left or the session is cancelled. -/
structure WellFormed (attempts done : Nat) (cancelled : Bool) (rs : List Report) : Prop where
  ne_nil : rs ≠ []
  length_le : done + rs.length ≤ attempts
  attempt : ∀ i r, rs[i]? = some r → r.attempt = done + i + 1
  failed : ∀ r ∈ rs.dropLast, r.outcome.isHardFailure = true
  last : ∀ r ∈ rs.getLast?, r.outcome.isHardFailure = true →
    done + rs.length = attempts ∨ cancelled = true

namespace WellFormed

variable {attempts done : Nat} {cancelled : Bool}

theorem single (hle : done + 1 ≤ attempts) (ha : r.attempt = done + 1)
    (hlast : r.outcome.isHardFailure = true → done + 1 = attempts ∨ cancelled = true) :
    WellFormed attempts done cancelled [r] := by
  refine ⟨List.cons_ne_nil r [], hle, ?_, by simp, by simpa using hlast⟩
  intro i r' hi
  cases i with
  | zero =>
      cases hi
      exact ha
  | succ i => cases hi

theorem cons (h : WellFormed attempts (done + 1) cancelled rs) (ha : r.attempt = done + 1)
    (hf : r.outcome.isHardFailure = true) : WellFormed attempts done cancelled (r :: rs) := by
  have hlength := h.length_le
  refine ⟨List.cons_ne_nil r rs, ?_, ?_, ?_, ?_⟩
  · rw [List.length_cons]
    omega
  · intro i r' hi
    cases i with
    | zero =>
        cases hi
        exact ha
    | succ i =>
        have hnumber := h.attempt i r' hi
        omega
  · intro r' hr'
    rw [List.dropLast_cons_of_ne_nil h.ne_nil] at hr'
    rcases List.mem_cons.mp hr' with rfl | hr'
    · exact hf
    · exact h.failed r' hr'
  · intro r' hr' hf'
    obtain ⟨q, qs, rfl⟩ := List.exists_cons_of_ne_nil h.ne_nil
    rw [List.getLast?_cons_cons] at hr'
    rw [List.length_cons]
    rcases h.last r' hr' hf' with hall | hc
    · exact .inl (by omega)
    · exact .inr hc

end WellFormed

/-! ## The runs of a session -/

/-- A wait that is said to be cut short was: the session is cancelled. -/
def Outside.IsCandid (o : Outside ω σ) : Prop :=
  ∀ d e h, (o.pause d e h).1.1 = true → o.cancelled (o.pause d e h).1.2 = true

theorem Outside.isCandid_onHost (p : Plan) (w : String → Engine.World (StateM σ)) :
    (onHost p w).IsCandid :=
  fun _ _ _ hp => hp

theorem Outside.Stops.why {interval : Span} {left : Nat} {e : ω}
    (h : o.Stops interval left r e) (ho : o.IsCandid) (hf : r.outcome.isHardFailure = true) :
    left = 0 ∨ o.cancelled e = true := by
  cases h with
  | accepted hnot =>
      rw [hf] at hnot
      cases hnot
  | exhausted hl => exact .inl hl
  | cancelled hc => exact .inr hc
  | interrupted hp => exact .inr (ho _ _ _ hp)

theorem Outside.exists_attempt (o : Outside ω σ) (p : Plan) (set : TaskSet) (attempt : Nat) (e : ω)
    (h : σ) (as : List (Attempt σ)) :
    ∃ (a : Attempt σ) (e' : ω), (o.surroundings p).run set attempt (e, h, as) =
      (a.ending, e', a.host, as ++ [a]) ∧ ∀ r, a.ending = .ok r → r.attempt = attempt := by
  obtain ⟨a, e', runId, h₁, elapsed, h₂, hrun, -, -, -, hending⟩ :=
    o.run_eq_conclude p set attempt e h as
  refine ⟨a, e', hrun, ?_⟩
  intro r hr
  obtain ⟨-, log, rfl⟩ := ok_of_conclude (hending.symm.trans hr)
  rfl

/-- The reports from an attempt on are well-formed, and they are those of the attempts made. -/
theorem wellFormed_of_runsFrom (ho : o.IsCandid) (full : TaskSet) (interval : Span) {left : Nat}
    (hl : left ≠ 0) (attempt : Nat) (current : TaskSet) (e : ω) (h : σ) (as : List (Attempt σ)) :
    ∃ result e' h' new,
      runsFrom (o.surroundings p) full interval left attempt current (e, h, as) =
        (result, e', h', as ++ new) ∧
      ∀ rs, result = .ok rs → new.map Attempt.ending = rs.map .ok ∧
        WellFormed (attempt + left) attempt (o.cancelled e') rs := by
  induction left generalizing attempt current e h as with
  | zero => exact (hl rfl).elim
  | succ left ih =>
      obtain ⟨a, e₁, hrun, ha⟩ := o.exists_attempt p current (attempt + 1) e h as
      rcases runsFrom_cases hrun with ⟨e', h', hstop, hwhy⟩ | ⟨r, e₂, h₂, hr, hf, hleft, hmore⟩
      · refine ⟨_, e', h', [a], hstop, ?_⟩
        intro rs hrs
        refine ⟨a.endings_eq hrs, ?_⟩
        cases hr : a.ending with
        | error _ =>
            rw [hr] at hrs
            cases hrs
        | ok r =>
            rw [hr] at hrs
            cases hrs
            refine .single (by omega) (ha r hr) fun hf => ?_
            rcases (hwhy r hr).why ho hf with rfl | hc
            · exact .inl rfl
            · exact .inr hc
      · obtain ⟨result, e', h', new, hnext, hreports⟩ := ih hleft (attempt + 1)
          (full.next (a.recovered p r) (Attempt.unresolved r)) e₂ h₂ (as ++ [a])
        rw [hnext] at hmore
        refine ⟨result.map (fun rs => r :: rs), e', h', a :: new, ?_, ?_⟩
        · rw [hmore, List.append_assoc]
          rfl
        · intro rs hrs
          cases result with
          | error _ => cases hrs
          | ok rs' =>
              cases hrs
              obtain ⟨hends, hformed⟩ := hreports rs' rfl
              rw [Nat.add_right_comm, Nat.add_assoc] at hformed
              refine ⟨?_, hformed.cons (ha r hr) hf⟩
              rw [List.map_cons, hends, hr]
              rfl

theorem wellFormed_onHost (w : String → Engine.World (StateM σ)) {s : RetrySettings}
    {full : TaskSet} {e e' : Weather × List Trace} {h h' : σ}
    (hruns : runs (onHost p w) s full e h = ((.ok rs, e'), h')) :
    WellFormed (max s.maxAttempts 1) 0 e'.1.cancelled rs := by
  have hpos : max s.maxAttempts 1 ≠ 0 := by omega
  obtain ⟨result, e'', h'', new, hfrom, hreports⟩ :=
    wellFormed_of_runsFrom (Outside.isCandid_onHost p w) full s.interval hpos 0 full e h []
  have hsame := (records_runsFrom p w full s.interval (max s.maxAttempts 1) 0 full e h []).1
  have hprogram : runsFrom (onHost p w) full s.interval (max s.maxAttempts 1) 0 full e h =
    ((.ok rs, e'), h') := hruns
  rw [hfrom, hprogram] at hsame
  cases hsame
  have hformed := (hreports rs rfl).2
  rwa [Nat.zero_add] at hformed

/-! ## What the user is told -/

/-- The program succeeds just when the last run did not fail outright. -/
theorem fst_conclude (colour : Bool) (format : Format) {last : Report}
    (hlast : rs.getLast? = some last) (h : σ) :
    ((Program.conclude colour format rs : StateM σ (Except Program.Complaint Unit)) h).1 =
      if last.outcome.isHardFailure then
        .error ["Mirroring failed after " ++ toString rs.length ++ " attempt(s)"]
      else .ok () := by
  unfold Program.conclude
  rw [hlast]
  cases format with
  | text => cases hf : last.outcome.isHardFailure <;> simp only [hf] <;> split <;> rfl
  | json => cases hf : last.outcome.isHardFailure <;> simp only [hf] <;> rfl

/-- Whatever the runs come to and whenever it is cancelled, a session that gives back reports gives
back one of each run that was made, at least one and no more than it may make. They are numbered
from one, all before the last failed outright, and the last one is what the user is told. If that
one failed outright, too, no attempt was left, or the session was cancelled. -/
theorem wellFormed_of_runs (ho : o.IsCandid) {s : RetrySettings} {full : TaskSet} {e e' : ω}
    {h h' : σ} {as : List (Attempt σ)}
    (hruns : runs (o.surroundings p) s full (e, h, []) = (.ok rs, e', h', as)) :
    WellFormed (max s.maxAttempts 1) 0 (o.cancelled e') rs ∧
      as.map Attempt.ending = rs.map .ok ∧
      ∃ last, rs.getLast? = some last ∧ ∀ colour format (h : σ),
        ((Program.conclude colour format rs : StateM σ (Except Program.Complaint Unit)) h).1 =
          if last.outcome.isHardFailure then
            .error ["Mirroring failed after " ++ toString rs.length ++ " attempt(s)"]
          else .ok () := by
  have hpos : max s.maxAttempts 1 ≠ 0 := by omega
  obtain ⟨result, e'', h'', new, hfrom, hreports⟩ :=
    wellFormed_of_runsFrom ho full s.interval hpos 0 full e h []
  have hsame : runs (o.surroundings p) s full (e, h, []) = (result, e'', h'', [] ++ new) := hfrom
  rw [hruns] at hsame
  cases hsame
  obtain ⟨hends, hformed⟩ := hreports rs rfl
  rw [Nat.zero_add] at hformed
  obtain ⟨last, hlast⟩ := Option.isSome_iff_exists.mp (List.getLast?_isSome.mpr hformed.ne_nil)
  exact ⟨hformed, hends, last, hlast, fun colour format => fst_conclude colour format hlast⟩

def alone : Plan := ⟨Engine.frugal, false, .standard, "errors"⟩

def oneImage : TaskSet := .ofTasks [Engine.plainImage "a"]

/-- Every call is refused after a while. -/
def refusing : Engine.World (StateM Machine) where
  call _ := pure ⟨.failure ⟨.auth, "unauthorized"⟩, ⟨3⟩, false⟩
  wait _ := pure ()
  tell _ := pure ()

/-- No error log can be written. -/
def locked : Machine := { Machine.empty with faults := [some .denied, some .denied] }

/-- The session is cancelled while it waits for its third attempt. -/
theorem wellFormed_of_refusing :
    ∃ rs e h as last, runs ((Outside.onHost alone (fun _ => refusing)).surroundings alone) ⟨4, ⟨10⟩⟩
        oneImage ((⟨⟨0⟩, [⟨⟨20⟩, .cancel⟩], false⟩, []), locked, []) = (.ok rs, e, h, as) ∧
      rs.length = 2 ∧ WellFormed 4 0 e.1.cancelled rs ∧ as.map Attempt.ending = rs.map .ok ∧
      rs.getLast? = some last ∧ last.outcome.isHardFailure = true := by
  rcases hruns : runs ((Outside.onHost alone (fun _ => refusing)).surroundings alone) ⟨4, ⟨10⟩⟩
    oneImage ((⟨⟨0⟩, [⟨⟨20⟩, .cancel⟩], false⟩, []), locked, []) with ⟨result, e, h, as⟩
  have hends : result.toOption.map (fun rs =>
      (rs.length, rs.getLast?.map (fun r => r.outcome.isHardFailure))) = some (2, some true) := by
    have hsame := congrArg (fun out => out.1.toOption.map (fun rs =>
      (rs.length, rs.getLast?.map (fun r => r.outcome.isHardFailure)))) hruns
    exact hsame.symm.trans (by decide +kernel)
  cases result with
  | error _ => cases hends
  | ok rs =>
      have hcandid := Outside.isCandid_onHost alone (fun _ => refusing)
      obtain ⟨hformed, hattempts, last, hlast, -⟩ := wellFormed_of_runs hcandid hruns
      obtain ⟨hlength, hfailed⟩ := Prod.mk.inj (Option.some.inj hends)
      rw [hlast] at hfailed
      exact ⟨rs, e, h, as, last, rfl, hlength, hformed, hattempts, hlast, Option.some.inj hfailed⟩

end ImageBatch.Session
