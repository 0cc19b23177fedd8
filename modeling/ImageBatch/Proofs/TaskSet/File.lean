import ImageBatch.Proofs.Event.Entries
import ImageBatch.Proofs.Json.Fields
import ImageBatch.Proofs.Machine.Requests
import ImageBatch.Proofs.TaskSet.Expectations
import ImageBatch.TaskSet.File

/-!
# Files of tasks are read back

A task set that is written as JSON and loaded again is the set that it was, if a run could have
worked with it: its origins are usable, and every kind among its tasks has an expectation.
-/

namespace ImageBatch

/-! ## Values -/

theorem ImageKind.ofLabel?_label (k : ImageKind) : ofLabel? k.label = some k := by
  cases k <;> decide

theorem mem_namesField {name n : String} {s : NameSet} {x : Json} :
    (n, x) ∈ namesField name s ↔ s ≠ ∅ ∧ n = name ∧ x = s.json := by
  have hempty : s.isEmpty = true ↔ s = ∅ := by
    rw [SortedSet.isEmpty, List.isEmpty_iff]
    exact ⟨fun h => SortedSet.eq_of_toList_eq h, fun h => h ▸ rfl⟩
  by_cases h : s = ∅
  · rw [namesField, if_pos (hempty.mpr h)]
    simp [h]
  · rw [namesField, if_neg (mt hempty.mp h)]
    simp [h]

namespace Task

/-- The fields of a task that are written. -/
def fields (t : Task) : List (String × Json) :=
  [("origin", .text t.origin), ("source", .text t.source),
    ("destination", .text t.destination), ("type", .text t.kind.label)] ++
    (t.rebuiltTag.toList.map fun tag => ("rebuilt-tag", .text tag)) ++
    namesField "operators" t.operators ++ namesField "bundles" t.bundles

theorem fields_sublist (t : Task) : (t.fields.map Prod.fst).Sublist fieldNames := by
  have hnames : ∀ name s, ((namesField name s).map Prod.fst).Sublist [name] := by
    intro name s
    rw [namesField]
    split
    · exact List.nil_sublist _
    · exact List.Sublist.refl _
  have htag : ((t.rebuiltTag.toList.map fun tag => ("rebuilt-tag", Json.text tag)).map
      Prod.fst).Sublist ["rebuilt-tag"] := by
    cases t.rebuiltTag with
    | none => exact List.nil_sublist _
    | some tag => exact List.Sublist.refl _
  rw [fields, List.map_append, List.map_append, List.map_append]
  exact (((List.Sublist.refl _).append htag).append (hnames _ _)).append (hnames _ _)

theorem mem_fields {t : Task} {name : String} {x : Json} : (name, x) ∈ t.fields ↔
    name = "origin" ∧ x = .text t.origin ∨ name = "source" ∧ x = .text t.source ∨
    name = "destination" ∧ x = .text t.destination ∨ name = "type" ∧ x = .text t.kind.label ∨
    (∃ tag, t.rebuiltTag = some tag ∧ name = "rebuilt-tag" ∧ x = .text tag) ∨
    (t.operators ≠ ∅ ∧ name = "operators" ∧ x = t.operators.json) ∨
    (t.bundles ≠ ∅ ∧ name = "bundles" ∧ x = t.bundles.json) := by
  simp only [fields, List.mem_append, List.mem_cons, List.mem_map,
    Option.mem_toList, Prod.mk.injEq, List.not_mem_nil, or_false, mem_namesField, or_assoc]
  simp only [eq_comm (a := name), eq_comm (a := x)]

theorem ofJson?_json (t : Task) : ofJson? t.json = some t := by
  have hknown : t.json.known? fieldNames = some t.fields.reverse :=
    Json.known?_record t.fields_sublist (by decide)
  have horigin : Json.required t.fields.reverse "origin" Json.text? = some t.origin :=
    Json.required_eq_some (by simp [mem_fields]) (by simp [mem_fields, Json.text?])
  have hsource : Json.required t.fields.reverse "source" Json.text? = some t.source :=
    Json.required_eq_some (by simp [mem_fields]) (by simp [mem_fields, Json.text?])
  have hdestination :
      Json.required t.fields.reverse "destination" Json.text? = some t.destination :=
    Json.required_eq_some (by simp [mem_fields]) (by simp [mem_fields, Json.text?])
  have hkind : Json.required t.fields.reverse "type" (Json.choice? ImageKind.ofLabel?) =
      some t.kind :=
    Json.required_eq_some (by simp [mem_fields])
      (by simp [mem_fields, Json.choice?, ImageKind.ofLabel?_label])
  have htag : Json.withDefault t.fields.reverse "rebuilt-tag" none (Json.nullable Json.text?) =
      some t.rebuiltTag := by
    refine Json.withDefault_eq_some ?_ ?_
    · intro x hx
      obtain ⟨tag, htag, rfl⟩ : ∃ tag, t.rebuiltTag = some tag ∧ x = .text tag := by
        simpa [mem_fields] using hx
      rw [htag]
      rfl
    · cases htag : t.rebuiltTag with
      | none => exact fun _ => rfl
      | some tag => simp [mem_fields, htag]
  have hoperators : Json.withDefault t.fields.reverse "operators" ∅ Json.names? =
      some t.operators := by
    refine Json.withDefault_eq_some ?_ ?_
    · simp [mem_fields, Json.names?_json]
    · simpa [mem_fields] using Eq.symm
  have hbundles : Json.withDefault t.fields.reverse "bundles" ∅ Json.names? = some t.bundles := by
    refine Json.withDefault_eq_some ?_ ?_
    · simp [mem_fields, Json.names?_json]
    · simpa [mem_fields] using Eq.symm
  simp only [ofJson?, hknown, horigin, hsource, hdestination, hkind, htag, hoperators, hbundles,
    Option.bind_eq_bind, Option.bind_some]

end Task

theorem KindCounts.ofJson?_json {counts : KindCounts}
    (h : ∀ e ∈ counts.toList, e.2 < countBound) : ofJson? counts.json = some counts := by
  have hentries : counts.json.entries? ImageKind.ofLabel? (Json.count? countBound) =
      some counts.toList :=
    Json.entries?_record ImageKind.label (fun e _ => e.1.ofLabel?_label)
      (fun e he => Json.count?_ofNat (h e he))
  rw [ofJson?, hentries, Option.map_some, SortedMap.ofList_toList]

theorem Dependents.ofJson?_json (d : Dependents) : ofJson? d.json = some d := by
  have hentries : d.json.entries? some Json.names? = some d.toList :=
    Json.entries?_record id (fun _ _ => rfl) (fun e _ => Json.names?_json e.2)
  rw [ofJson?, hentries, Option.map_some, SortedMap.ofList_toList]

namespace TaskSet

variable {s : TaskSet}

theorem ofJson?_json (h : ∀ e ∈ s.expected.toList, e.2 < countBound) :
    ofJson? s.json = some s := by
  have hknown (fields : List (String × Json)) (hnames : fields.map Prod.fst = fieldNames) :
      Json.known? fieldNames (.record fields) = some fields.reverse :=
    Json.known?_record (hnames ▸ List.Sublist.refl _) (by decide)
  have htasks : Json.items? Task.ofJson? (.list (s.tasks.map Task.json)) = some s.tasks :=
    Json.items?_list fun t _ => t.ofJson?_json
  rw [ofJson?, json, hknown _ rfl]
  simp [Json.withDefault_cons, htasks, KindCounts.ofJson?_json h, Dependents.ofJson?_json]

/-! ## Expectations -/

/-- Every kind among the tasks has an expectation. -/
def IsFilled (s : TaskSet) : Prop := ∀ t ∈ s.tasks, s.expected.get? t.kind ≠ none

instance (s : TaskSet) : Decidable s.IsFilled :=
  inferInstanceAs (Decidable (∀ t ∈ s.tasks, s.expected.get? t.kind ≠ none))

theorem fillExpected_eq_self (h : s.IsFilled) : s.fillExpected = s := by
  have hkept : s.fillExpected.expected = s.expected := by
    refine SortedMap.eq_of_get?_eq fun k => ?_
    rw [get?_fillExpected]
    cases hk : s.expected.get? k with
    | some n => rfl
    | none =>
        by_contra hcounted
        obtain ⟨t, ht, rfl⟩ := get?_observed_ne_none.mp hcounted
        exact h t ht hk
  calc
    s.fillExpected = { s with expected := s.fillExpected.expected } := rfl
    _ = s := by rw [hkept]

theorem isFilled_fillExpected (s : TaskSet) : s.fillExpected.IsFilled := by
  intro t ht
  rw [get?_fillExpected, ne_eq, Option.or_eq_none_iff, not_and]
  exact fun _ => get?_observed_ne_none.mpr ⟨t, ht, rfl⟩

theorem of_ofFile_eq_ok {path text : String} (h : ofFile path text = .ok s) :
    s.fault? = none ∧ s.IsFilled := by
  rw [ofFile] at h
  split at h
  · cases h
  · rename_i read _
    split at h
    · cases h
    · rename_i hsound
      cases h
      exact ⟨hsound, isFilled_fillExpected read⟩

/-! ## Names of files -/

theorem fileName_joinPath (folder : String) {name : String} (h : IsPlainName name) :
    fileName (joinPath folder name) = name.toList := by
  have hkept : ∀ n : List Char, (!(String.ofList n).isEmpty && String.ofList n != ".") =
      (!n.isEmpty && n != ['.']) := by
    intro n
    rw [Bool.eq_iff_iff]
    simp [← String.toList_inj]
  have hnames : ∀ path : String, Machine.names path =
      ((path.toList.splitOn '/').filter fun n => !n.isEmpty && n != ['.']).map String.ofList := by
    intro path
    rw [Machine.names, List.filter_map]
    exact congrArg _ (List.filter_congr fun n _ => hkept n)
  have hlast := congrArg List.getLast? (Machine.names_joinPath folder h)
  rw [hnames, List.getLast?_map, List.getLast?_concat] at hlast
  obtain ⟨n, hn, rfl⟩ := Option.map_eq_some_iff.mp hlast
  rw [fileName, List.getLastD_eq_getLast?, hn, String.toList_ofList]
  rfl

/-- A name that ends with the extension, in whatever letters, is the name of a file of JSON. -/
theorem isJsonFile_joinPath (folder : String) {stem ext : String} (hstem : stem ≠ "")
    (hext : ext.toList.map Char.toLower = ['j', 's', 'o', 'n'])
    (hplain : IsPlainName (stem ++ "." ++ ext)) :
    isJsonFile (joinPath folder (stem ++ "." ++ ext)) = true := by
  have hpoint : '.' ∉ ext.toList := by
    intro hin
    have hlower := List.mem_map_of_mem (f := Char.toLower) hin
    rw [hext] at hlower
    revert hlower
    decide
  have hsplit : (stem ++ "." ++ ext).toList.splitOn '.' =
      stem.toList.splitOn '.' ++ [ext.toList] := by
    rw [String.toList_append, String.toList_append, List.append_assoc,
      ← List.splitOn_eq_singleton hpoint]
    exact List.splitOn_append_cons_self _ _
  have hfront : stem.toList.splitOn '.' ≠ [[]] := by
    intro hfront
    have hjoined : List.intercalate ['.'] (stem.toList.splitOn '.') = stem.toList :=
      List.intercalate_splitOn _
    rw [hfront] at hjoined
    exact hstem (String.toList_eq_nil_iff.mp hjoined.symm)
  have hextension : extension? (stem ++ "." ++ ext).toList = some ext.toList := by
    rw [extension?, hsplit, List.reverse_append]
    cases hparts : (stem.toList.splitOn '.').reverse with
    | nil => exact absurd (List.reverse_eq_nil_iff.mp hparts) (List.splitOn_ne_nil _ _)
    | cons previous more =>
        refine if_neg fun hbare => hfront ?_
        rw [Bool.and_eq_true, List.isEmpty_iff, List.isEmpty_iff] at hbare
        rw [← List.reverse_reverse (stem.toList.splitOn '.'), hparts, hbare.1, hbare.2]
        rfl
  rw [isJsonFile, fileName_joinPath folder hplain, hextension]
  exact beq_iff_eq.mpr hext

/-! ## Saving and loading -/

theorem readsBack_names (names : NameSet) : names.json.ReadsBack :=
  Json.readsBack_list (List.forall_mem_map.mpr fun name _ => Json.readsBack_text name)

theorem readsBack_task (t : Task) : t.json.ReadsBack := by
  refine Json.readsBack_record fun f hf => ?_
  obtain ⟨name, x⟩ := f
  rcases Task.mem_fields.mp hf with ⟨-, rfl⟩ | ⟨-, rfl⟩ | ⟨-, rfl⟩ | ⟨-, rfl⟩ |
    ⟨tag, -, -, rfl⟩ | ⟨-, -, rfl⟩ | ⟨-, -, rfl⟩
  iterate 5 exact Json.readsBack_text _
  iterate 2 exact readsBack_names _

theorem readsBack_dependents (d : Dependents) : d.json.ReadsBack :=
  Json.readsBack_record (List.forall_mem_map.mpr fun e _ => readsBack_names e.2)

theorem readsBack_json (s : TaskSet) : s.json.ReadsBack := by
  refine Json.readsBack_record ?_
  simp only [List.forall_mem_cons, List.not_mem_nil, false_implies, implies_true, and_true]
  refine ⟨Json.readsBack_list (List.forall_mem_map.mpr fun t _ => readsBack_task t), ?_,
    readsBack_dependents _, readsBack_dependents _⟩
  exact Json.readsBack_record (List.forall_mem_map.mpr fun e _ => Json.readsBack_ofNat e.2)

theorem ofFile_of_read? {path text : String} (hsound : s.fault? = none) (hfilled : s.IsFilled)
    (hfits : ∀ e ∈ s.expected.toList, e.2 < countBound) (hpath : isJsonFile path = true)
    (hread : Json.read? text = some s.json) : ofFile path text = .ok s := by
  have hset : ofText? (isJsonFile path) text = some s := by
    rw [ofText?, if_pos hpath, hread]
    exact ofJson?_json hfits
  simp only [ofFile, hset, hsound, fillExpected_eq_self hfilled]

theorem load_apply {x : Machine} {path text : String} (hfaults : x.faults = [])
    (hfile : x.read path = .ok text.toUTF8) :
    (load path : StateM Machine (Except FileFault TaskSet)) x = (ofFile path text, x) := by
  have htext : Text.decode? text.toUTF8 = some text := dif_pos text.isValidUTF8
  simp only [load, Host.readText, Machine.bind_apply, Machine.pure_apply,
    Machine.read_apply hfaults, hfile, htext]

/-- A usable set that expects something of every kind among its tasks is written as a text that is
read as its value, and whatever file of JSON holds a text of this value is loaded as the set. -/
theorem load_of_saved (hsound : s.fault? = none) (hfilled : s.IsFilled)
    (hfits : ∀ e ∈ s.expected.toList, e.2 < countBound) :
    Json.read? s.json.write = some s.json ∧
      ∀ {x : Machine} {path text : String}, x.faults = [] → isJsonFile path = true →
        x.read path = .ok text.toUTF8 → Json.read? text = some s.json →
        (load path : StateM Machine (Except FileFault TaskSet)) x = (.ok s, x) := by
  refine ⟨Json.read?_write (readsBack_json s), ?_⟩
  intro x path text hfaults hpath hfile hread
  rw [load_apply hfaults hfile, ofFile_of_read? hsound hfilled hfits hpath hread]

/-- Two tasks with all that a task may have, of which one depends on the other. -/
def busy : TaskSet where
  tasks := [
    ⟨"quay.io/op:v3", "docker://quay.io/op:v3", "docker://mirror/op:v3", .operatorRelatedImage,
      some "v3-rebuilt", .ofList ["etcd", "amq"], ∅⟩,
    ⟨"bundle.v1", "docker://quay.io/b:1", "docker://mirror/b:1", .operatorBundle, none, ∅,
      .ofList ["bundle.v1"]⟩]
  expected := .ofList [(.operatorRelatedImage, 1), (.operatorBundle, 1), (.helmImage, 7)]
  bundleDependents := .ofList [("quay.io/op:v3", .ofList ["bundle.v1"])]
  operatorDependents := .ofList [("quay.io/op:v3", .ofList ["amq", "etcd"])]

theorem load_of_saved_of_busy :
    busy.fault? = none ∧ busy.IsFilled ∧
      (load "tasks.JSON" : StateM Machine (Except FileFault TaskSet))
          (.withFile "tasks.JSON" busy.json.write) =
        (.ok busy, .withFile "tasks.JSON" busy.json.write) := by
  have hsound : busy.fault? = none := by decide +kernel
  have hfilled : busy.IsFilled := by decide +kernel
  have hname : IsPlainName "tasks.JSON" := by constructor <;> decide
  have hpath : joinPath "" ("tasks" ++ "." ++ "JSON") = "tasks.JSON" := by
    simp [joinPath]
  have hjson : isJsonFile "tasks.JSON" = true :=
    hpath ▸ isJsonFile_joinPath "" (by decide) (by decide) hname
  obtain ⟨hread, hload⟩ := load_of_saved hsound hfilled (by decide +kernel)
  exact ⟨hsound, hfilled, hload rfl hjson (Machine.read_withFile hname (by decide) _) hread⟩

end TaskSet

end ImageBatch
