import ImageBatch.Decoding
import ImageBatch.Encoding
import ImageBatch.Proofs.Sorted.Canonical

/-!
# Structures are read back

A structure that is written as an object of some of its fields, in their order, is read with just
these fields, and a list or a map is read back as soon as each of its members is.
-/

namespace ImageBatch.Json

/-! ## Known fields -/

/-- Fields that are known and differ from one another are all taken. -/
theorem pick_of_nodup {names : List String} {fields : List (String × Json)} {found : Known}
    (hknown : ∀ f ∈ fields, f.1 ∈ names)
    (hnodup : (fields.map Prod.fst).Nodup)
    (hfresh : ∀ f ∈ fields, f.1 ∉ found.map Prod.fst) :
    pick names (fields.map fun f => (some f.1, f.2)) found = some (fields.reverse ++ found) := by
  induction fields generalizing found with
  | nil => rfl
  | cons f fields ih =>
      obtain ⟨hf, hfields⟩ := List.forall_mem_cons.mp hknown
      obtain ⟨hnew, hnodup⟩ := List.nodup_cons.mp hnodup
      obtain ⟨hfree, hfresh⟩ := List.forall_mem_cons.mp hfresh
      have hnone : found.any (fun g => g.1 == f.1) = false := by
        rw [List.any_eq_false]
        intro g hg he
        exact hfree (List.mem_map.mpr ⟨g, hg, eq_of_beq he⟩)
      have hrest : ∀ g ∈ fields, g.1 ∉ (f :: found).map Prod.fst := by
        intro g hg hin
        rcases List.mem_cons.mp hin with he | hin
        · exact hnew (he ▸ List.mem_map_of_mem hg)
        · exact hfresh g hg hin
      rw [List.map_cons, pick, if_pos hf, hnone, List.reverse_cons, List.append_assoc,
        List.singleton_append]
      exact ih hfields hnodup hrest

/-- An object of some of the fields of a structure, in their order. -/
theorem known?_record {names : List String} {fields : List (String × Json)}
    (hsub : (fields.map Prod.fst).Sublist names) (hnames : names.Nodup) :
    known? names (record fields) = some fields.reverse := by
  rw [record, known?, pick_of_nodup _ (hnames.sublist hsub) (fun _ _ => List.not_mem_nil),
    List.append_nil]
  exact fun f hf => hsub.subset (List.mem_map_of_mem hf)

theorem mem_of_lookup {k : Known} {name : String} {x : Json} (h : k.lookup name = some x) :
    (name, x) ∈ k := by
  obtain ⟨before, after, rfl, -⟩ := List.lookup_eq_some_iff.mp h
  exact List.mem_append_right _ List.mem_cons_self

theorem not_mem_of_lookup {k : Known} {name : String} (h : k.lookup name = none) (x : Json) :
    (name, x) ∉ k := fun hin => by
  have hne := List.lookup_eq_none_iff.mp h (name, x) hin
  simp at hne

variable {α β : Type} {k : Known} {name : String} {a : α} {read : Json → Option α}

/-- A field that is there is read, if every value under its name is read so. -/
theorem required_eq_some (hthere : ∃ x, (name, x) ∈ k)
    (hread : ∀ x, (name, x) ∈ k → read x = some a) : required k name read = some a := by
  cases hlookup : k.lookup name with
  | none =>
      obtain ⟨x, hx⟩ := hthere
      exact absurd hx (not_mem_of_lookup hlookup x)
  | some x =>
      rw [required, hlookup]
      exact hread x (mem_of_lookup hlookup)

/-- A field that may be left out is left out for its usual value only. -/
theorem withDefault_eq_some {usual : α} (hread : ∀ x, (name, x) ∈ k → read x = some a)
    (hmissing : (∀ x, (name, x) ∉ k) → usual = a) :
    withDefault k name usual read = some a := by
  cases hlookup : k.lookup name with
  | none => rw [withDefault, hlookup, hmissing (not_mem_of_lookup hlookup)]
  | some x =>
      rw [withDefault, hlookup]
      exact hread x (mem_of_lookup hlookup)

/-! ## Lists and maps -/

theorem mapM_map_eq_some {f : β → Option α} {g : α → β} {xs : List α}
    (h : ∀ x ∈ xs, f (g x) = some x) : (xs.map g).mapM f = some xs := by
  induction xs with
  | nil => rfl
  | cons x xs ih =>
      obtain ⟨hx, hxs⟩ := List.forall_mem_cons.mp h
      rw [List.map_cons, List.mapM_cons, hx, ih hxs]
      rfl

theorem items?_list {write : α → Json} {xs : List α} (h : ∀ x ∈ xs, read (write x) = some x) :
    items? read (list (xs.map write)) = some xs :=
  mapM_map_eq_some h

theorem entries?_record {κ : Type} {key : String → Option κ} (label : κ → String)
    {write : α → Json} {es : List (κ × α)} (hkey : ∀ e ∈ es, key (label e.1) = some e.1)
    (hread : ∀ e ∈ es, read (write e.2) = some e.2) :
    (record (es.map fun e => (label e.1, write e.2))).entries? key read = some es := by
  rw [record, entries?, List.map_map]
  refine mapM_map_eq_some fun e he => ?_
  simp only [Function.comp_apply, Option.bind_eq_bind, Option.bind_some, hkey e he, hread e he]

theorem names?_json (s : NameSet) : names? s.json = some s := by
  have htexts : items? text? (.ofNames s.toList) = some s.toList := items?_list fun _ _ => rfl
  rw [names?, NameSet.json, htexts, Option.map_some, SortedSet.ofList_toList]

end ImageBatch.Json
