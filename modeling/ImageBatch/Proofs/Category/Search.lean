import ImageBatch.Proofs.Category
import ImageBatch.Proofs.Text.Letters

/-!
# The search for a category

The category of a text is the first in the order of reports that has a phrase in the text. All
phrases are ASCII words, so it does not matter which lower case of the text is searched, nor in
which case the letters of the text are written, and text around it can only bring an earlier
category.
-/

namespace ImageBatch.Category

open Text

variable {c d : Category} {m : String} {text text' low : List Char}

/-- The category is the first that has a phrase in the text. The last category needs none. -/
structure IsFirstIn (text : List Char) (c : Category) : Prop where
  stands : c = other ∨ ∃ p ∈ c.phrases, p.toList <:+: text
  first : ∀ d : Category, d.rank < c.rank → ∀ p ∈ d.phrases, ¬ p.toList <:+: text

theorem isFirstIn_iff : IsFirstIn text c ↔
    (c = other ∨ claims text c = true) ∧
      ∀ d : Category, d.rank < c.rank → claims text d = false := by
  have hnone : ∀ d : Category, claims text d = false ↔ ∀ p ∈ d.phrases, ¬ p.toList <:+: text := by
    intro d
    rw [← Bool.not_eq_true, claims_iff]
    simp only [not_exists, not_and]
  simp only [hnone, claims_iff]
  exact ⟨fun h => ⟨h.stands, h.first⟩, fun h => ⟨h.1, h.2⟩⟩

/-- Of two categories that have a phrase in a text only one comes first. -/
theorem IsFirstIn.eq (hc : IsFirstIn text c) (hd : IsFirstIn text d) : c = d := by
  have hle : ∀ {c d : Category}, IsFirstIn text c → IsFirstIn text d → c.rank ≤ d.rank := by
    intro c d hc hd
    by_contra hlt
    rcases hd.stands with rfl | ⟨p, hp, hin⟩
    · cases c <;> exact hlt (by decide)
    · exact hc.first d (Nat.not_le.mp hlt) p hp hin
  exact rank_injective (Nat.le_antisymm (hle hc hd) (hle hd hc))

theorem isFirstIn_classify (m : String) : IsFirstIn (lowered m) (classify m) := by
  refine isFirstIn_iff.mpr ⟨?_, ?_⟩
  · by_cases hother : classify m = other
    · exact .inl hother
    · exact .inr (claims_classify hother)
  · intro d hlt
    by_contra hclaims
    exact absurd (rank_classify_le (Bool.not_eq_false _ ▸ hclaims)) (Nat.not_le.mpr hlt)

theorem isAscii_of_mem_phrase {p : String} (hp : p ∈ c.phrases) : ∀ x ∈ p.toList, IsAscii x := by
  have hall : c.phrases.all (fun p => p.toList.all (fun x => decide (IsAscii x))) = true := by
    cases c <;> decide
  intro x hx
  exact of_decide_eq_true (List.all_eq_true.mp (List.all_eq_true.mp hall p hp) x hx)

theorem IsFirstIn.of_alike (hc : IsFirstIn text c) (h : Alike text text') : IsFirstIn text' c := by
  constructor
  case stands =>
    rcases hc.stands with hother | ⟨p, hp, hin⟩
    · exact .inl hother
    · exact .inr ⟨p, hp, h.isInfix (isAscii_of_mem_phrase hp) hin⟩
  case first =>
    intro d hlt p hp hin
    exact hc.first d hlt p hp (h.symm.isInfix (isAscii_of_mem_phrase hp) hin)

theorem classify_eq_iff_of_lowersTo (h : LowersTo m.toList low) :
    classify m = c ↔ IsFirstIn low c := by
  have hfirst : IsFirstIn low (classify m) :=
    (isFirstIn_classify m).of_alike ((lowersTo_lowered m).alike h)
  constructor
  · rintro rfl
    exact hfirst
  · exact hfirst.eq

/-- The category of a text is the first that has a phrase in its lower case, the case of ASCII
letters does not change it, and text around it can only bring an earlier one. -/
theorem classify_searches (m : String) :
    (∀ low, LowersTo m.toList low → ∀ c, classify m = c ↔ IsFirstIn low c) ∧
      (∀ m' : String, m'.toList.map Char.toLower = m.toList.map Char.toLower →
        classify m' = classify m) ∧
      ∀ p s : String, (classify (p ++ m ++ s)).rank ≤ (classify m).rank := by
  refine ⟨?_, ?_, ?_⟩
  · intro low hlow c
    exact classify_eq_iff_of_lowersTo hlow
  · intro m' hsame
    rw [classify, classify, lowered_congr hsame]
  · intro p s
    have hwithin : lowered m <:+: lowered (p ++ m ++ s) := by
      rw [lowered_append, lowered_append]
      exact List.infix_append ..
    exact rank_classify_le_of_within hwithin

/-- The last sigma of a word has a lower case of its own, and a Kelvin sign stands for a letter. -/
theorem classify_searches_of_sigma :
    LowersTo "\u03A3\u0391\u03A3 TO\u212AEN".toList "\u03C3\u03B1\u03C2 token".toList ∧
      IsFirstIn "\u03C3\u03B1\u03C2 token".toList auth ∧
      classify "\u03A3\u0391\u03A3 TO\u212AEN" = auth ∧
      classify "\u03A3\u0391\u03A3 to\u212AeN" = auth ∧
      (classify ("dial " ++ "\u03A3\u0391\u03A3 TO\u212AEN" ++ ".")).rank ≤ auth.rank := by
  have hgreek : ∀ c d : Char, ¬ IsAscii c → c ≠ '\u212A' → c ≠ '\u0130' → ¬ IsAscii d →
      IsLowerForm c [d] := by
    intro c d hc hk hi hd
    exact .foreign hc hk hi (List.cons_ne_nil d []) fun x hx => List.mem_singleton.mp hx ▸ hd
  have hlow : LowersTo "\u03A3\u0391\u03A3 TO\u212AEN".toList "\u03C3\u03B1\u03C2 token".toList :=
    .cons (hgreek '\u03A3' '\u03C3' (by decide) (by decide) (by decide) (by decide))
      (.cons (hgreek '\u0391' '\u03B1' (by decide) (by decide) (by decide) (by decide))
        (.cons (hgreek '\u03A3' '\u03C2' (by decide) (by decide) (by decide) (by decide))
          (lowersTo_lowered " TO\u212AEN")))
  have hauth : classify "\u03A3\u0391\u03A3 TO\u212AEN" = auth := by decide +kernel
  obtain ⟨hfirst, hcase, haround⟩ := classify_searches "\u03A3\u0391\u03A3 TO\u212AEN"
  refine ⟨hlow, (hfirst _ hlow auth).mp hauth, hauth, ?_, ?_⟩
  · exact (hcase _ (by decide +kernel)).trans hauth
  · exact hauth ▸ haround "dial " "."

end ImageBatch.Category
