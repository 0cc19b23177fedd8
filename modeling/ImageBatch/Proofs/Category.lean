import ImageBatch.Category
import Mathlib.Data.List.Infix

/-!
# The category of a text

The category of a text is the first that claims it, so more text can only move it forward. A text
that is put behind another brings its own phrases, and no phrase stands across the joint if none
has an end with which the second text begins.
-/

namespace ImageBatch

namespace Text

@[simp] theorem lowered_append (s t : String) : lowered (s ++ t) = lowered s ++ lowered t := by
  simp [lowered]

theorem lowered_ofList (cs : List Char) :
    lowered (String.ofList cs) = cs.flatMap lowerChar := by
  rw [lowered, String.toList_ofList]

theorem lowered_isPrefix {cs ds : List Char} (h : cs <+: ds) :
    lowered (String.ofList cs) <+: lowered (String.ofList ds) := by
  obtain ⟨rest, rfl⟩ := h
  rw [String.ofList_append, lowered_append]
  exact List.prefix_append ..

end Text

namespace Category

variable {c : Category} {m m' : String} {text text' t : List Char}

/-! ## The first claim -/

theorem claims_iff : claims text c = true ↔ ∃ p ∈ c.phrases, p.toList <:+: text := by
  simp [claims, Text.contains_iff]

theorem claims_of_within (hsub : text <:+: text') (h : claims text c = true) :
    claims text' c = true := by
  obtain ⟨p, hp, hin⟩ := claims_iff.mp h
  exact claims_iff.mpr ⟨p, hp, hin.trans hsub⟩

/-- A category that is not the last claims the text it is given to. -/
theorem claims_classify (h : classify m ≠ other) :
    claims (Text.lowered m) (classify m) = true := by
  cases hfind : all.find? (claims (Text.lowered m)) with
  | none => exact absurd (by rw [classify, hfind]; rfl) h
  | some d =>
      have hd : classify m = d := by rw [classify, hfind]; rfl
      rw [hd]
      exact List.find?_some hfind

/-- No category that claims a text comes before the one it is given to. -/
theorem rank_classify_le (h : claims (Text.lowered m) c = true) :
    (classify m).rank ≤ c.rank := by
  have hsorted : all.Pairwise (fun a b => a.rank < b.rank) := by decide
  cases hfind : all.find? (claims (Text.lowered m)) with
  | none => exact absurd h (List.find?_eq_none.mp hfind c (mem_all c))
  | some d =>
      obtain ⟨-, before, after, hall, hnone⟩ := List.find?_eq_some_iff_append.mp hfind
      have hd : classify m = d := by rw [classify, hfind]; rfl
      rw [hd]
      have hmem := mem_all c
      rw [hall] at hmem hsorted
      rcases List.mem_append.mp hmem with hc | hc
      · exact absurd h (by simpa using hnone c hc)
      · rcases List.mem_cons.mp hc with rfl | hc
        · exact Nat.le_refl _
        · exact Nat.le_of_lt (List.rel_of_pairwise_cons (List.pairwise_append.mp hsorted).2.1 hc)

theorem classify_eq_other_iff : classify m = other ↔ ∀ c, claims (Text.lowered m) c = false := by
  constructor
  · intro h c
    by_contra hc
    have hle := rank_classify_le (Bool.not_eq_false _ ▸ hc)
    rw [h] at hle
    cases c <;> first | exact absurd hle (by decide) | exact hc rfl
  · intro h
    by_contra hne
    exact Bool.false_ne_true ((h _).symm.trans (claims_classify hne))

theorem classify_congr (h : ∀ c, claims (Text.lowered m) c = claims (Text.lowered m') c) :
    classify m = classify m' := by
  rw [classify, classify, funext h]

theorem rank_classify_le_of_within (h : Text.lowered m <:+: Text.lowered m') :
    (classify m').rank ≤ (classify m).rank := by
  by_cases hother : classify m = other
  · rw [hother]
    cases classify m' <;> decide
  · exact rank_classify_le (claims_of_within h (claims_classify hother))

/-- More text leaves the category as it is exactly if there was none or it is claimed before. -/
theorem classify_eq_iff_of_within (h : Text.lowered m <:+: Text.lowered m') :
    classify m = classify m' ↔
      classify m' = other ∨ claims (Text.lowered m) (classify m') = true := by
  have hle := rank_classify_le_of_within h
  constructor
  · intro heq
    by_cases hother : classify m' = other
    · exact .inl hother
    · right
      rw [← heq] at hother ⊢
      exact claims_classify hother
  · rintro (hother | hclaim)
    · rw [hother] at hle ⊢
      cases hm : classify m <;> first | rfl | exact absurd hle (by rw [hm]; decide)
    · exact rank_injective (Nat.le_antisymm (rank_classify_le hclaim) hle)

/-! ## Joints -/

theorem isLower_of_mem_phrase {p : String} (hp : p ∈ c.phrases) :
    ∀ x ∈ p.toList, x.isLower = true ∨ x = ' ' := by
  revert p
  cases c <;> simp [phrases]

theorem phrase_ne_nil {p : String} (hp : p ∈ c.phrases) : p.toList ≠ [] := by
  revert p
  cases c <;> decide

/-- Claims of a text and of what stands behind it are the claims of both together if no phrase has
an end with which the second begins. -/
theorem claims_append (h : ∀ p ∈ c.phrases, ∀ v ∈ p.toList.tails, v <+: t → v = []) :
    claims (text ++ t) c = (claims text c || claims t c) := by
  rw [Bool.eq_iff_iff, Bool.or_eq_true]
  constructor
  · intro hclaim
    obtain ⟨p, hp, hin⟩ := claims_iff.mp hclaim
    rcases List.infix_append_iff_ne_nil.mp hin with hin | hin | ⟨u, v, -, hv, hpuv, -, hpre⟩
    · exact .inl (claims_iff.mpr ⟨p, hp, hin⟩)
    · exact .inr (claims_iff.mpr ⟨p, hp, hin⟩)
    · have hend : v ∈ p.toList.tails := (List.mem_tails ..).mpr ⟨u, hpuv.symm⟩
      exact absurd (h p hp v hend hpre) hv
  · rintro (hclaim | hclaim)
    · exact claims_of_within (List.prefix_append ..).isInfix hclaim
    · exact claims_of_within (List.suffix_append ..).isInfix hclaim

theorem claims_append_of_foreign (h : ∀ x ∈ t, x.isLower = false ∧ x ≠ ' ') :
    claims (text ++ t) c = claims text c := by
  have happart : ∀ p ∈ c.phrases, ∀ v, v <:+: p.toList → v ⊆ t → v = [] := by
    intro p hp v hv hsub
    refine List.eq_nil_iff_forall_not_mem.mpr fun x hx => ?_
    obtain ⟨hlower, hblank⟩ := h x (hsub hx)
    rcases isLower_of_mem_phrase hp x (hv.subset hx) with hx | hx
    · exact Bool.false_ne_true (hlower.symm.trans hx)
    · exact hblank hx
  have hnone : claims t c = false := by
    by_contra hclaim
    obtain ⟨p, hp, hin⟩ := claims_iff.mp (Bool.not_eq_false _ ▸ hclaim)
    exact phrase_ne_nil hp (happart p hp _ (List.infix_refl _) hin.subset)
  rw [claims_append, hnone, Bool.or_false]
  intro p hp v hv hpre
  exact happart p hp v ((List.mem_tails ..).mp hv).isInfix hpre.subset

end Category

end ImageBatch
