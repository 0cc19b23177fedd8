import ImageBatch.Text.Letters
import Mathlib.Data.List.Infix

/-!
# ASCII words in lower case

Lower case, as Unicode has it, gives each character a piece of text, and the piece of a sigma
depends on what stands around it. Besides the ASCII characters only the Kelvin sign and the dotted
capital I have pieces with ASCII characters in them. So the same ASCII words stand in every lower
case of a text, and it is enough to know the one that leaves all other characters alone.
-/

namespace ImageBatch.Text

variable {c : Char} {p cs ds low low' piece piece' u : List Char}

/-- The character is one of ASCII. -/
def IsAscii (c : Char) : Prop := c.toNat < 128

instance (c : Char) : Decidable (IsAscii c) := inferInstanceAs (Decidable (c.toNat < 128))

/-! ## Texts with the same ASCII words -/

/-- Texts that differ only in runs of characters beyond ASCII, and only in what stands in a run. -/
inductive Alike : List Char → List Char → Prop
  | nil : Alike [] []
  | same (c : Char) {cs ds : List Char} : Alike cs ds → Alike (c :: cs) (c :: ds)
  | runs {u v cs ds : List Char} : u ≠ [] → v ≠ [] → (∀ x ∈ u, ¬ IsAscii x) →
      (∀ x ∈ v, ¬ IsAscii x) → Alike cs ds → Alike (u ++ cs) (v ++ ds)

theorem Alike.symm (h : Alike cs ds) : Alike ds cs := by
  induction h with
  | nil => exact .nil
  | same c _ ih => exact .same c ih
  | runs hu hv hus hvs _ ih => exact .runs hv hu hvs hus ih

theorem Alike.append_left (piece : List Char) (h : Alike cs ds) :
    Alike (piece ++ cs) (piece ++ ds) := by
  induction piece with
  | nil => exact h
  | cons c piece ih => exact .same c ih

theorem eq_nil_of_isPrefix_run (hp : ∀ x ∈ p, IsAscii x) (hu : u ≠ []) (hus : ∀ x ∈ u, ¬ IsAscii x)
    (h : p <+: u ++ cs) : p = [] := by
  cases p with
  | nil => rfl
  | cons x p =>
      obtain ⟨y, u, rfl⟩ := List.exists_cons_of_ne_nil hu
      have hxy : x = y := (List.cons_prefix_cons.mp h).1
      exact absurd (hp x List.mem_cons_self) (hxy ▸ hus y List.mem_cons_self)

theorem isInfix_of_run (hp : ∀ x ∈ p, IsAscii x) (hus : ∀ x ∈ u, ¬ IsAscii x)
    (h : p <:+: u ++ cs) : p <:+: cs := by
  induction u with
  | nil => exact h
  | cons y u ih =>
      rcases List.infix_cons_iff.mp h with hfront | hwithin
      · have hnil : p = [] := eq_nil_of_isPrefix_run hp (List.cons_ne_nil y u) hus hfront
        rw [hnil]
        exact List.nil_infix
      · exact ih (fun x hx => hus x (List.mem_cons_of_mem y hx)) hwithin

theorem Alike.isPrefix (h : Alike cs ds) (hp : ∀ x ∈ p, IsAscii x) (hfront : p <+: cs) :
    p <+: ds := by
  induction h generalizing p with
  | nil => exact hfront
  | same c _ ih =>
      cases p with
      | nil => exact List.nil_prefix
      | cons x p =>
          obtain ⟨rfl, hrest⟩ := List.cons_prefix_cons.mp hfront
          have hwords : ∀ y ∈ p, IsAscii y := fun y hy => hp y (List.mem_cons_of_mem x hy)
          exact List.cons_prefix_cons.mpr ⟨rfl, ih hwords hrest⟩
  | runs hu _ hus _ _ _ =>
      rw [eq_nil_of_isPrefix_run hp hu hus hfront]
      exact List.nil_prefix

theorem Alike.isInfix (h : Alike cs ds) (hp : ∀ x ∈ p, IsAscii x) (hwithin : p <:+: cs) :
    p <:+: ds := by
  induction h with
  | nil => exact hwithin
  | same c h ih =>
      rcases List.infix_cons_iff.mp hwithin with hfront | hwithin
      · exact ((Alike.same c h).isPrefix hp hfront).isInfix
      · exact List.infix_cons (ih hwithin)
  | @runs _ v _ _ _ _ hus _ _ ih =>
      exact (ih (isInfix_of_run hp hus hwithin)).trans (List.suffix_append v _).isInfix

/-! ## Letters of either case -/

theorem toLower_cases (c : Char) :
    c.toLower = c ∨ 65 ≤ c.toNat ∧ c.toNat ≤ 90 ∧ c.toLower.toNat = c.toNat + 32 := by
  by_cases hupper : c.val ≥ 'A'.val ∧ c.val ≤ 'Z'.val
  · have hlow : 65 ≤ c.toNat := UInt32.le_iff_toNat_le.mp hupper.1
    have hhigh : c.toNat ≤ 90 := UInt32.le_iff_toNat_le.mp hupper.2
    have hval : c.toLower.val = c.val + 32 := congrArg Char.val (dif_pos hupper : c.toLower = _)
    have hstep : (32 : UInt32).toNat = 32 := rfl
    refine .inr ⟨hlow, hhigh, ?_⟩
    rw [← Char.toNat_val] at *
    rw [hval, UInt32.toNat_add, hstep]
    exact Nat.mod_eq_of_lt (by omega)
  · exact .inl (dif_neg hupper)

theorem toLower_toLower (c : Char) : c.toLower.toLower = c.toLower := by
  rcases toLower_cases c with hsame | ⟨hlow, hhigh, hlower⟩
  · rw [hsame, hsame]
  · rcases toLower_cases c.toLower with hsame | ⟨-, hle, -⟩
    · exact hsame
    · omega

theorem isAscii_toLower_iff : IsAscii c.toLower ↔ IsAscii c := by
  unfold IsAscii
  rcases toLower_cases c with hsame | ⟨hlow, hhigh, hlower⟩
  · rw [hsame]
  · omega

theorem toLower_of_not_isAscii (h : ¬ IsAscii c) : c.toLower = c := by
  rcases toLower_cases c with hsame | ⟨-, hhigh, -⟩
  · exact hsame
  · unfold IsAscii at h
    omega

theorem lowerChar_of_isAscii (h : IsAscii c) : lowerChar c = [c.toLower] := by
  unfold IsAscii at h
  have hk : c.toNat ≠ 0x212A := by omega
  have hi : c.toNat ≠ 0x130 := by omega
  simp [lowerChar, hk, hi]

theorem lowerChar_toLower (c : Char) : lowerChar c.toLower = lowerChar c := by
  by_cases hascii : IsAscii c
  · rw [lowerChar_of_isAscii (isAscii_toLower_iff.mpr hascii), lowerChar_of_isAscii hascii,
      toLower_toLower]
  · rw [toLower_of_not_isAscii hascii]

/-- Texts that differ only in the case of ASCII letters have one lower case. -/
theorem lowered_congr {s t : String} (h : s.toList.map Char.toLower = t.toList.map Char.toLower) :
    lowered s = lowered t := by
  have hfold : ∀ r : String, lowered r = (r.toList.map Char.toLower).flatMap lowerChar := by
    intro r
    rw [List.flatMap_map, lowered]
    simp only [lowerChar_toLower]
  rw [hfold s, hfold t, h]

/-! ## Lower case -/

/-- What may stand for a character in lower case. -/
inductive IsLowerForm : Char → List Char → Prop
  | ascii {c : Char} : IsAscii c → IsLowerForm c [c.toLower]
  | kelvin : IsLowerForm '\u212A' ['k']
  | dotted : IsLowerForm '\u0130' ['i', '\u0307']
  | foreign {c : Char} {piece : List Char} : ¬ IsAscii c → c ≠ '\u212A' → c ≠ '\u0130' →
      piece ≠ [] → (∀ x ∈ piece, ¬ IsAscii x) → IsLowerForm c piece

/-- A text is another one in lower case, character by character. A character need not have the same
form wherever it stands. -/
inductive LowersTo : List Char → List Char → Prop
  | nil : LowersTo [] []
  | cons {c : Char} {piece cs low : List Char} : IsLowerForm c piece → LowersTo cs low →
      LowersTo (c :: cs) (piece ++ low)

theorem isLowerForm_lowerChar (c : Char) : IsLowerForm c (lowerChar c) := by
  unfold lowerChar
  split
  · rename_i hk
    have hc : c = '\u212A' := Char.toNat_inj.mp (eq_of_beq hk)
    rw [hc]
    exact .kelvin
  · rename_i hk
    split
    · rename_i hi
      have hc : c = '\u0130' := Char.toNat_inj.mp (eq_of_beq hi)
      rw [hc]
      exact .dotted
    · rename_i hi
      by_cases hascii : IsAscii c
      · exact .ascii hascii
      · refine .foreign hascii ?_ ?_ (List.cons_ne_nil _ _) ?_
        · rintro rfl
          exact hk rfl
        · rintro rfl
          exact hi rfl
        · intro x hx
          rw [List.mem_singleton.mp hx, toLower_of_not_isAscii hascii]
          exact hascii

/-- The lower case that leaves characters alone where no ASCII character comes of it is one. -/
theorem lowersTo_lowered (s : String) : LowersTo s.toList (lowered s) := by
  unfold lowered
  induction s.toList with
  | nil => exact .nil
  | cons c cs ih =>
      rw [List.flatMap_cons]
      exact .cons (isLowerForm_lowerChar c) ih

theorem Alike.append_forms (hpiece : IsLowerForm c piece) (hpiece' : IsLowerForm c piece')
    (h : Alike cs ds) : Alike (piece ++ cs) (piece' ++ ds) := by
  have hkelvin : ¬ IsAscii '\u212A' := by decide
  have hdotted : ¬ IsAscii '\u0130' := by decide
  cases hpiece with
  | ascii hascii =>
      cases hpiece' with
      | ascii => exact h.append_left _
      | kelvin => exact absurd hascii hkelvin
      | dotted => exact absurd hascii hdotted
      | foreign hnot => exact absurd hascii hnot
  | kelvin =>
      cases hpiece' with
      | ascii hascii => exact absurd hascii hkelvin
      | kelvin => exact h.append_left _
      | foreign _ hne => exact absurd rfl hne
  | dotted =>
      cases hpiece' with
      | ascii hascii => exact absurd hascii hdotted
      | dotted => exact h.append_left _
      | foreign _ _ hne => exact absurd rfl hne
  | foreign hnot hk hi hsome hall =>
      cases hpiece' with
      | ascii hascii => exact absurd hascii hnot
      | kelvin => exact absurd rfl hk
      | dotted => exact absurd rfl hi
      | foreign _ _ _ hsome' hall' => exact .runs hsome hsome' hall hall' h

theorem LowersTo.alike (h : LowersTo cs low) (h' : LowersTo cs low') : Alike low low' := by
  induction h generalizing low' with
  | nil =>
      cases h'
      exact .nil
  | cons hpiece _ ih =>
      cases h' with
      | cons hpiece' h' => exact .append_forms hpiece hpiece' (ih h')

end ImageBatch.Text
