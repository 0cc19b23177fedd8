import ImageBatch.Proofs.Sorted.Canonical
import ImageBatch.Proofs.Text.Bytes
import ImageBatch.Skip
import Mathlib.Order.Basic

/-!
# Which tasks are passed over

A bundle is given up for the first record that names it, and of the bundles of this record for the
one that comes first by its bytes. Records that come in later are not looked at then, so a decision
against a task stands, and only a task that may go ahead can still be given up.
-/

namespace ImageBatch.SkipPolicy

variable {p : SkipPolicy} {t : Task} {names : NameSet} {prior : List Record} {r : Record}
  {b reason : String}

/-! ## The bundle of a record -/

/-- A bundle identifier means the task. -/
def Means (t : Task) (names : NameSet) (b : String) : Prop := b = t.origin ∨ b ∈ names

/-- The record is about the task: one of its bundles means it. -/
def Concerns (t : Task) (names : NameSet) (r : Record) : Prop := ∃ b ∈ r.bundles, Means t names b

/-- The bundle that a record names for a task: of those that mean it, the least by its bytes. -/
structure NamesFirst (t : Task) (names : NameSet) (r : Record) (b : String) : Prop where
  listed : b ∈ r.bundles
  means : Means t names b
  least : ∀ c ∈ r.bundles, Means t names c → c = b ∨ Text.bytes b < Text.bytes c

instance (t : Task) (names : NameSet) (b : String) : Decidable (Means t names b) :=
  inferInstanceAs (Decidable (_ ∨ _))

instance (t : Task) (names : NameSet) (r : Record) : Decidable (Concerns t names r) :=
  inferInstanceAs (Decidable (∃ b ∈ r.bundles.toList, Means t names b))

instance (t : Task) (names : NameSet) (r : Record) (b : String) :
    Decidable (NamesFirst t names r b) :=
  decidable_of_iff (b ∈ r.bundles ∧ Means t names b ∧
      ∀ c ∈ r.bundles.toList, Means t names c → c = b ∨ Text.bytes b < Text.bytes c)
    ⟨fun h => ⟨h.1, h.2.1, h.2.2⟩, fun h => ⟨h.listed, h.means, h.least⟩⟩

theorem hit?_eq_none_iff : hit? t names r = none ↔ ¬ Concerns t names r := by
  simp [hit?, Concerns, Means, SortedSet.mem_def]

/-- The members of a set are looked at in the order of their bytes. -/
theorem hit?_eq_some_iff : hit? t names r = some b ↔ NamesFirst t names r b := by
  have hmeans (c : String) :
      (c == t.origin || Decidable.decide (c ∈ names)) = true ↔ Means t names c := by
    simp [Means]
  rw [hit?, SortedSet.find?_eq_some_iff_least r.bundles.rising]
  simp only [hmeans, compare_lt_iff_lt, ← Text.bytes_lt_iff]
  exact ⟨fun ⟨hlisted, hm, hleast⟩ => ⟨hlisted, hm, hleast⟩,
    fun ⟨hlisted, hm, hleast⟩ => ⟨hlisted, hm, hleast⟩⟩

/-! ## The first record -/

/-- The first record about a task, and the bundle that it names for the task. -/
def FirstOf (t : Task) (names : NameSet) (prior : List Record) (r : Record) (b : String) : Prop :=
  ∃ before after, prior = before ++ r :: after ∧ (∀ c ∈ before, ¬ Concerns t names c) ∧
    NamesFirst t names r b

theorem blocked?_eq_some_iff : blocked? t names prior = some reason ↔
    ∃ r b, FirstOf t names prior r b ∧ reason = SkipPolicy.reason b r.task.origin := by
  rw [blocked?, List.findSome?_eq_some_iff]
  simp only [Option.map_eq_none_iff, Option.map_eq_some_iff, hit?_eq_none_iff, hit?_eq_some_iff]
  constructor
  · rintro ⟨before, r, after, hsplit, ⟨b, hb, hreason⟩, hbefore⟩
    exact ⟨r, b, ⟨before, after, hsplit, hbefore, hb⟩, hreason.symm⟩
  · rintro ⟨r, b, ⟨before, after, hsplit, hbefore, hb⟩, hreason⟩
    exact ⟨before, r, after, hsplit, ⟨b, hb, hreason.symm⟩, hbefore⟩

theorem blocked?_eq_none_iff :
    blocked? t names prior = none ↔ ∀ r ∈ prior, ¬ Concerns t names r := by
  simp only [blocked?, List.findSome?_eq_none_iff, Option.map_eq_none_iff, hit?_eq_none_iff]

/-- Later records are looked at only if none before them is about the task. -/
theorem blocked?_append (more : List Record) :
    blocked? t names (prior ++ more) = (blocked? t names prior).or (blocked? t names more) :=
  List.findSome?_append

/-! ## Decisions -/

/-- A release graph is left out of a run to or from a disk that is not for an enclave. -/
def LeavesOut (p : SkipPolicy) (t : Task) : Prop :=
  t.kind = .releaseGraph ∧ (p.mode = .toDisk ∨ p.mode = .toMirror) ∧ p.enclave = false

/-- The task is a bundle, and one of the records is about it. -/
def IsBlocked (t : Task) (names : NameSet) (prior : List Record) : Prop :=
  t.kind = .operatorBundle ∧ ∃ r ∈ prior, Concerns t names r

theorem bypasses_iff : p.bypasses t = true ↔ p.LeavesOut t := by
  simp [bypasses, LeavesOut, and_assoc]

theorem decide_cases (p : SkipPolicy) (t : Task) (names : NameSet) (prior : List Record) :
    p.LeavesOut t ∧ p.decide t names prior = .bypass ∨
      t.kind = .operatorBundle ∧ (∃ reason, blocked? t names prior = some reason ∧
        p.decide t names prior = .skip reason) ∨
      ¬ p.LeavesOut t ∧ ¬ IsBlocked t names prior ∧ p.decide t names prior = .proceed := by
  rw [decide]
  by_cases hleft : p.LeavesOut t
  · exact .inl ⟨hleft, if_pos (bypasses_iff.mpr hleft)⟩
  · rw [if_neg (mt bypasses_iff.mp hleft)]
    by_cases hkind : t.kind = .operatorBundle
    · rw [if_pos hkind]
      cases hblocked : blocked? t names prior with
      | some reason => exact .inr (.inl ⟨hkind, reason, rfl, rfl⟩)
      | none =>
          have hnone := blocked?_eq_none_iff.mp hblocked
          exact .inr (.inr ⟨hleft, fun ⟨_, r, hr, hc⟩ => hnone r hr hc, rfl⟩)
    · exact .inr (.inr ⟨hleft, fun h => hkind h.1, if_neg hkind⟩)

theorem decide_eq_bypass_iff : p.decide t names prior = .bypass ↔ p.LeavesOut t := by
  rcases decide_cases p t names prior with ⟨hleft, hd⟩ | ⟨hkind, reason, -, hd⟩ | ⟨hleft, -, hd⟩
  · simp [hd, hleft]
  · simp [hd, LeavesOut, hkind]
  · simp [hd, hleft]

theorem decide_eq_skip_iff : p.decide t names prior = .skip reason ↔
    t.kind = .operatorBundle ∧ blocked? t names prior = some reason := by
  rcases decide_cases p t names prior with ⟨hleft, hd⟩ | ⟨hkind, words, hb, hd⟩ | ⟨-, hfree, hd⟩
  · simp [hd, hleft.1]
  · simp [hd, hkind, hb]
  · rw [hd]
    refine iff_of_false nofun ?_
    rintro ⟨hkind, hb⟩
    have hnone : blocked? t names prior = none :=
      blocked?_eq_none_iff.mpr fun r hr hc => hfree ⟨hkind, r, hr, hc⟩
    rw [hnone] at hb
    cases hb

theorem exists_decide_eq_skip_iff :
    (∃ reason, p.decide t names prior = .skip reason) ↔ IsBlocked t names prior := by
  simp only [decide_eq_skip_iff, exists_and_left]
  refine and_congr_right fun _ => ?_
  rw [← Option.ne_none_iff_exists', ne_eq, blocked?_eq_none_iff]
  simp

theorem decide_eq_proceed_iff : p.decide t names prior = .proceed ↔
    ¬ p.LeavesOut t ∧ ¬ IsBlocked t names prior := by
  rcases decide_cases p t names prior with ⟨hleft, hd⟩ | ⟨-, reason, -, hd⟩ | ⟨hleft, hfree, hd⟩
  · simp [hd, hleft]
  · simp [hd, exists_decide_eq_skip_iff.mp ⟨reason, hd⟩]
  · simp [hd, hleft, hfree]

theorem decide_append (h : p.decide t names prior ≠ .proceed) (more : List Record) :
    p.decide t names (prior ++ more) = p.decide t names prior := by
  rcases decide_cases p t names prior with ⟨hleft, hd⟩ | ⟨hkind, reason, hb, hd⟩ | ⟨-, -, hd⟩
  · rw [hd, decide_eq_bypass_iff]
    exact hleft
  · rw [hd, decide_eq_skip_iff, blocked?_append, hb]
    exact ⟨hkind, rfl⟩
  · exact (h hd).elim

/-- Decisions are exact, and they stand. A task is bypassed just if it is a release graph that the
run leaves out, and given up just if it is a bundle and a record is about it; then the reason names
the first such record and the least bundle of it that means the task. Every other task goes ahead.
Records that come in later change no decision but that to go ahead, and that only into giving up. -/
theorem decide_exact (p : SkipPolicy) (t : Task) (names : NameSet) (prior : List Record) :
    (p.decide t names prior = .bypass ↔ p.LeavesOut t) ∧
      ((∃ reason, p.decide t names prior = .skip reason) ↔ IsBlocked t names prior) ∧
      (∀ reason, p.decide t names prior = .skip reason ↔ t.kind = .operatorBundle ∧
        ∃ r b, FirstOf t names prior r b ∧ reason = SkipPolicy.reason b r.task.origin) ∧
      (p.decide t names prior = .proceed ↔ ¬ p.LeavesOut t ∧ ¬ IsBlocked t names prior) ∧
      ∀ more, (p.decide t names prior ≠ .proceed →
          p.decide t names (prior ++ more) = p.decide t names prior) ∧
        (p.decide t names prior = .proceed → p.decide t names (prior ++ more) = .proceed ∨
          ∃ reason, p.decide t names (prior ++ more) = .skip reason) := by
  refine ⟨decide_eq_bypass_iff, exists_decide_eq_skip_iff, fun reason => ?_, decide_eq_proceed_iff,
    fun more => ⟨fun h => decide_append h more, fun h => ?_⟩⟩
  · rw [decide_eq_skip_iff, blocked?_eq_some_iff]
  · rcases decide_cases p t names (prior ++ more) with ⟨hout, -⟩ | ⟨-, reason, -, hd⟩ | ⟨-, -, hd⟩
    · exact ((decide_eq_proceed_iff.mp h).1 hout).elim
    · exact .inr ⟨reason, hd⟩
    · exact .inl hd

def bundle : Task := ⟨"op", "op", "op", .operatorBundle, none, ∅, ∅⟩

def needed (origin : String) (bundles : List String) : Record where
  task := ⟨origin, origin, origin, .operatorRelatedImage, none, ∅, ∅⟩
  kind := .failed
  message := "manifest unknown"
  category := .notFoundOrInvalid
  operators := ∅
  bundles := .ofList bundles

def twoNames : NameSet := .ofList ["b2", "b10"]

def twoRecords : List Record := [needed "a" ["other"], needed "b" ["zz", "b2", "b10"]]

/-- Of a record's bundles `b10` comes before `b2`, and the record after it is not looked at. -/
theorem decide_exact_of_twoNames :
    decide ⟨.toDisk, false⟩ bundle twoNames twoRecords =
        .skip "bundle b10 skipped: dependency b failed to mirror" ∧
      decide ⟨.toDisk, false⟩ bundle twoNames (twoRecords ++ [needed "c" ["op"]]) =
        .skip "bundle b10 skipped: dependency b failed to mirror" := by
  obtain ⟨-, -, hskip, -, hmore⟩ := decide_exact ⟨.toDisk, false⟩ bundle twoNames twoRecords
  have hfirst : FirstOf bundle twoNames twoRecords (needed "b" ["zz", "b2", "b10"]) "b10" :=
    ⟨[needed "a" ["other"]], [], rfl, by decide +kernel, by decide +kernel⟩
  have hd := (hskip _).mpr ⟨rfl, _, _, hfirst, rfl⟩
  have hstands := (hmore [needed "c" ["op"]]).1 (by rw [hd]; exact Decision.noConfusion)
  exact ⟨hd, hstands.trans hd⟩

end ImageBatch.SkipPolicy
