import ImageBatch.Sorted.Map
import Mathlib.Data.List.Induction
import Mathlib.Data.List.Nodup

/-!
# One form for each set and map

A sorted set is its list of members, and a sorted map is what it answers to look-ups. So the list of
a set or map gives it back, and maps that agree on every key are equal.
-/

namespace ImageBatch

/-! ## Sets -/

namespace SortedSet

variable {α : Type} [Ord α] [Std.TransOrd α] [Std.LawfulEqOrd α]

omit [Std.LawfulEqOrd α] in
theorem place_eq_concat {a : α} {xs : List α} (h : ∀ x ∈ xs, compare x a = .lt) :
    place a xs = xs ++ [a] := by
  induction xs with
  | nil => rfl
  | cons x xs ih =>
      obtain ⟨hx, hxs⟩ := List.forall_mem_cons.mp h
      rw [place, Std.OrientedCmp.gt_iff_lt.mpr hx, List.cons_append, ← ih hxs]

theorem toList_ofList {xs : List α} (h : Rising xs) : (ofList xs).toList = xs := by
  induction xs using List.reverseRecOn with
  | nil => rfl
  | append_singleton xs a ih =>
      obtain ⟨hxs, -, hlast⟩ := List.pairwise_append.mp h
      have hstep : (ofList (xs ++ [a])).toList = place a (ofList xs).toList := by
        rw [ofList, insertAll, List.foldl_append]
        rfl
      rw [hstep, ih hxs]
      exact place_eq_concat fun x hx => hlast x hx a List.mem_cons_self

theorem ofList_toList (s : SortedSet α) : ofList s.toList = s :=
  eq_of_toList_eq (toList_ofList s.rising)

omit [Std.LawfulEqOrd α] in
/-- What is found first in a rising list is the least that is sought. -/
theorem find?_eq_some_iff_least {p : α → Bool} {xs : List α} (h : Rising xs) {b : α} :
    xs.find? p = some b ↔
      b ∈ xs ∧ p b = true ∧ ∀ c ∈ xs, p c = true → c = b ∨ compare b c = .lt := by
  induction xs with
  | nil => simp
  | cons x xs ih =>
      obtain ⟨hx, hxs⟩ := List.pairwise_cons.mp h
      by_cases hpx : p x = true
      · rw [List.find?_cons_of_pos hpx, Option.some.injEq]
        constructor
        · rintro rfl
          refine ⟨List.mem_cons_self, hpx, fun c hc _ => ?_⟩
          exact (List.mem_cons.mp hc).imp id (hx c)
        · rintro ⟨hb, -, hleast⟩
          rcases List.mem_cons.mp hb with rfl | hb
          · rfl
          · rcases hleast x List.mem_cons_self hpx with rfl | hlt
            · rfl
            · exact (Std.OrientedCmp.not_lt_of_lt hlt (hx b hb)).elim
      · have hne : ∀ c, p c = true → c ≠ x := fun c hc he => hpx (he ▸ hc)
        rw [List.find?_cons_of_neg hpx, ih hxs]
        constructor
        · rintro ⟨hb, hpb, hleast⟩
          refine ⟨List.mem_cons_of_mem x hb, hpb, fun c hc hpc => ?_⟩
          exact hleast c ((List.mem_cons.mp hc).resolve_left (hne c hpc)) hpc
        · rintro ⟨hb, hpb, hleast⟩
          refine ⟨(List.mem_cons.mp hb).resolve_left (hne b hpb), hpb, fun c hc => ?_⟩
          exact hleast c (List.mem_cons_of_mem x hc)

end SortedSet

/-! ## Maps -/

namespace SortedMap

variable {κ α : Type} [Ord κ] [Std.TransOrd κ]

theorem place_eq_concat {k : κ} {f : Option α → α} {es : List (κ × α)}
    (h : ∀ e ∈ es, compare e.1 k = .lt) : place k f es = es ++ [(k, f none)] := by
  induction es with
  | nil => rfl
  | cons e es ih =>
      obtain ⟨he, hes⟩ := List.forall_mem_cons.mp h
      rw [place, Std.OrientedCmp.gt_iff_lt.mpr he, List.cons_append, ← ih hes]

theorem toList_ofList {es : List (κ × α)}
    (h : es.Pairwise (fun a b => compare a.1 b.1 = .lt)) : (ofList es).toList = es := by
  induction es using List.reverseRecOn with
  | nil => rfl
  | append_singleton es e ih =>
      obtain ⟨hes, -, hlast⟩ := List.pairwise_append.mp h
      have hstep : (ofList (es ++ [e])).toList = place e.1 (fun _ => e.2) (ofList es).toList := by
        rw [ofList, List.foldl_append]
        rfl
      rw [hstep, ih hes]
      exact place_eq_concat fun x hx => hlast x hx e List.mem_cons_self

theorem ofList_toList (m : SortedMap κ α) : ofList m.toList = m :=
  eq_of_toList_eq (toList_ofList m.rising)

theorem ne_of_lt {e e' : κ × α} (h : compare e.1 e'.1 = .lt) : e ≠ e' := by
  rintro rfl
  rw [Std.compare_self] at h
  cases h

variable [Std.LawfulEqOrd κ]

theorem mem_toList_iff {m : SortedMap κ α} {k : κ} {a : α} :
    (k, a) ∈ m.toList ↔ m.get? k = some a := by
  have hm := m.rising
  unfold get?
  generalize m.toList = es at hm ⊢
  induction es with
  | nil => simp [find]
  | cons e es ih =>
      obtain ⟨hfirst, hes⟩ := List.pairwise_cons.mp hm
      by_cases hk : k = e.1
      · have hnot : (k, a) ∉ es := fun hin => ne_of_lt (hk ▸ hfirst _ hin) rfl
        rw [find, if_pos (Std.compare_eq_iff_eq.mpr hk), List.mem_cons, or_iff_left hnot,
          Option.some.injEq, hk]
        exact ⟨fun h => (congrArg Prod.snd h).symm, fun h => by rw [← h]⟩
      · have hne : (k, a) ≠ e := fun h => hk (congrArg Prod.fst h)
        rw [find, if_neg (mt Std.compare_eq_iff_eq.mp hk), List.mem_cons, or_iff_right hne]
        exact ih hes

theorem eq_of_get?_eq {m m' : SortedMap κ α} (h : ∀ k, m.get? k = m'.get? k) : m = m' := by
  have hnodup : ∀ m : SortedMap κ α, m.toList.Nodup := fun m => m.rising.imp ne_of_lt
  apply eq_of_toList_eq
  refine List.Perm.eq_of_pairwise ?_ m.rising m'.rising
    ((List.perm_ext_iff_of_nodup (hnodup m) (hnodup m')).mpr ?_)
  · intro a b _ _ hab hba
    exact (Std.OrientedCmp.not_lt_of_lt hab hba).elim
  · rintro ⟨k, a⟩
    rw [mem_toList_iff, mem_toList_iff, h k]

end SortedMap

end ImageBatch
