import ImageBatch.Proofs.Machine.Paths
import Mathlib.Data.List.Nodup
import Mathlib.Data.List.Perm.Subperm
import Mathlib.Data.Nat.Find

/-!
# Requests that succeed

What the requests to a machine do when none of them is made to fail. A new file is empty and has a
number that no other file has; whatever is written goes behind the content of one file.
-/

namespace ImageBatch.Machine

variable {x y z : Machine} {path name folder : String} {p q : TreePath} {id : Nat}

theorem bind_apply {α β : Type} (f : StateM Machine α) (g : α → StateM Machine β) (x : Machine) :
    (f >>= g) x = g (f x).1 (f x).2 := rfl

theorem pure_apply {α : Type} (a : α) (x : Machine) : (pure a : StateM Machine α) x = (a, x) := rfl

/-! ## Machines without faults -/

theorem act_apply {ε α : Type} {wrong : FileError → ε} {f : Machine → Except ε (Machine × α)}
    (h : x.faults = []) : act wrong f x =
      match f x with
      | .error e => (.error e, x)
      | .ok (z, a) => (.ok a, z) := by
  rcases hrun : f x with e | ⟨z, a⟩ <;> simp only [act, fault, h, hrun]

theorem look_apply {α : Type} {f : Machine → Except FileError α} (h : x.faults = []) :
    look f x = (f x, x) := by
  simp only [look, fault, h]

theorem makeFolders_apply (h : x.faults = []) :
    (Host.makeFolders path : StateM Machine (Except FileError Unit)) x =
      match x.makeFolders path with
      | .error e => (.error e, x)
      | .ok y => (.ok (), y) := by
  refine (act_apply h).trans ?_
  rcases x.makeFolders path with e | y <;> rfl

theorem list_apply (h : x.faults = []) :
    (Host.list path : StateM Machine (Except FileError (List String))) x = (x.list path, x) :=
  look_apply h

theorem write_apply (h : x.faults = []) (id : Nat) (text : String) :
    (Host.write id text : StateM Machine (Except FileError Unit)) x =
      (.ok (), x.append id text.toUTF8) :=
  act_apply h

theorem isThere_apply (x : Machine) (path : String) :
    (Host.isThere path : StateM Machine Bool) x = ((x.kind? path).isSome, x) := rfl

theorem openAtEnd_apply (h : x.faults = []) :
    (Host.openAtEnd path : StateM Machine (Except FileError Nat)) x =
      match x.openFile path with
      | .error e => (.error e, x)
      | .ok (z, a) => (.ok a, z) := by
  refine (act_apply h).trans ?_
  rcases x.openFile path with e | ⟨z, a⟩ <;> rfl

theorem read_apply (h : x.faults = []) :
    (Host.read path : StateM Machine (Except FileError ByteArray)) x = (x.read path, x) :=
  look_apply h

theorem read_of_node (hp : x.resolve path = .ok p) (hnode : x.node? p = some (.file id)) :
    x.read path = .ok (x.contents.getD id ByteArray.empty) := by
  rw [read, hp]
  simp only [bind, Except.bind, hnode]

theorem read_eq_ok {bytes : ByteArray} (h : x.read path = .ok bytes) :
    ∃ p id, x.resolve path = .ok p ∧ x.node? p = some (.file id) ∧
      x.contents.getD id ByteArray.empty = bytes := by
  rw [read] at h
  cases hresolve : x.resolve path with
  | error e => simp [hresolve, bind, Except.bind] at h
  | ok p =>
      simp only [hresolve, bind, Except.bind] at h
      split at h
      · cases h
      · cases h
      · rename_i id hnode
        exact ⟨p, id, rfl, hnode, Except.ok.inj h⟩

theorem kind?_of_node (hp : x.resolve path = .ok p) (hnode : x.node? p = some (.file id)) :
    x.kind? path = some .file := by
  rw [kind?, hp]
  simp only [hnode, Option.map_some]

theorem exists_of_kind {k : FileKind} (h : x.kind? path = some k) :
    ∃ p n, x.resolve path = .ok p ∧ x.node? p = some n := by
  rw [kind?] at h
  split at h
  · cases h
  · rename_i p hresolve
    obtain ⟨n, hnode, -⟩ := Option.map_eq_some_iff.mp h
    exact ⟨p, n, hresolve, hnode⟩

theorem Extends.kind? {k : FileKind} (hxy : x.Extends y) (h : x.kind? path = some k) :
    y.kind? path = some k := by
  obtain ⟨p, n, hresolve, hnode⟩ := exists_of_kind h
  rw [← h, Machine.kind?, Machine.kind?, hxy.resolve hresolve hnode, hresolve]
  simp only [hxy.node p n hnode, hnode]

theorem Extends.kind?_eq_none (hxy : x.Extends y) (h : y.kind? path = none) :
    x.kind? path = none := by
  cases hkind : x.kind? path with
  | none => rfl
  | some k =>
      rw [hxy.kind? hkind] at h
      cases h

theorem LeadsTo.kind (h : x.LeadsTo path p) : x.kind? path = some .folder := by
  rw [kind?, h.resolves]
  simp only [h.node, Option.map_some]

/-- Where something is that a folder can be made of, the folder is there. -/
theorem LeadsTo.eq_of_makeFolders {k : FileKind} (h : y.LeadsTo path p)
    (hmade : x.makeFolders path = .ok y) (hkind : x.kind? path = some k) : y = x := by
  have hkeeps := (grows_of_makeFolders hmade).keeps
  obtain ⟨q, n, hresolve, hnode⟩ := exists_of_kind hkind
  have hq : q = p := Except.ok.inj ((hkeeps.resolve hresolve hnode).symm.trans h.resolves)
  have hn : n = .folder :=
    Option.some.inj ((hkeeps.node q n hnode).symm.trans (hq ▸ h.node))
  have hleads : x.LeadsTo path p := ⟨hq ▸ hresolve, hq ▸ hn ▸ hnode⟩
  exact Except.ok.inj (hmade.symm.trans hleads.makeFolders)

theorem LeadsTo.list (h : x.LeadsTo path p) : x.list path = .ok (x.children p) := by
  rw [Machine.list, h.resolves]
  simp only [bind, Except.bind, h.node]

theorem list_eq_ok {names : List String} (h : x.list path = .ok names) :
    ∃ p, x.LeadsTo path p ∧ x.children p = names := by
  rw [Machine.list] at h
  cases hresolve : x.resolve path with
  | error e => simp [hresolve, bind, Except.bind] at h
  | ok p =>
      simp only [hresolve, bind, Except.bind] at h
      split at h
      · cases h
      · cases h
      · rename_i hnode
        exact ⟨p, ⟨hresolve, hnode⟩, Except.ok.inj h⟩

theorem createFirst_apply (h : x.faults = []) (path : Nat → String) :
    (Host.createFirst path : StateM Machine (Except (Nat × FileError) (Nat × Nat))) x =
      match x.createFirst path with
      | .error e => (.error e, x)
      | .ok (z, a) => (.ok a, z) := by
  refine (act_apply h).trans ?_
  rcases x.createFirst path with e | ⟨z, a⟩ <;> rfl

/-! ## Making files -/

theorem exists_addFile_of_create (h : x.create path = .ok (y, id)) :
    ∃ q, (y, id) = x.addFile q := by
  rw [create] at h
  cases hresolve : x.resolve path with
  | error e => simp [hresolve, bind, Except.bind] at h
  | ok q =>
      simp only [hresolve, bind, Except.bind] at h
      split at h
      · cases h
      · exact ⟨q, (Except.ok.inj h).symm⟩

theorem createFrom_eq_ok {paths : Nat → String} {tries n m : Nat}
    (h : x.createFrom paths tries n = .ok (y, m, id)) :
    (∀ i, n ≤ i → i < m → x.create (paths i) = .error .exists) ∧
      x.create (paths m) = .ok (y, id) := by
  induction tries generalizing n with
  | zero => cases h
  | succ tries ih =>
      rw [createFrom] at h
      split at h
      · rename_i hcreate
        simp only [Except.ok.injEq, Prod.mk.injEq] at h
        obtain ⟨rfl, rfl, rfl⟩ := h
        exact ⟨fun i hle hlt => (Nat.not_lt.mpr hle hlt).elim, hcreate⟩
      · rename_i hexists
        obtain ⟨htaken, hcreate⟩ := ih h
        refine ⟨?_, hcreate⟩
        intro i hle hlt
        rcases Nat.lt_or_eq_of_le hle with hle | rfl
        · exact htaken i hle hlt
        · exact hexists
      · cases h

/-- The first path that is not taken is found if it comes within the tries. -/
theorem createFrom_of_create {paths : Nat → String} {tries n m : Nat} (hle : n ≤ m)
    (hlt : m < n + tries)
    (htaken : ∀ i, n ≤ i → i < m → x.create (paths i) = .error .exists)
    (hmade : x.create (paths m) = .ok (y, id)) : x.createFrom paths tries n = .ok (y, m, id) := by
  induction tries generalizing n with
  | zero => omega
  | succ tries ih =>
      rw [createFrom]
      rcases Nat.lt_or_eq_of_le hle with hnm | rfl
      · rw [htaken n (Nat.le_refl n) hnm]
        exact ih hnm (by omega) (fun i hi => htaken i (Nat.le_of_succ_le hi))
      · rw [hmade]

/-- Neither the name nor its path is too long. -/
structure HasRoom (folder name : String) : Prop where
  path : (joinPath folder name).utf8ByteSize ≤ pathBound
  name : name.utf8ByteSize ≤ nameBound

namespace Houses

theorem resolve_of_hasRoom (h : x.Houses folder p) (hn : IsPlainName name)
    (hroom : HasRoom folder name) : x.resolve (joinPath folder name) = .ok (p ++ [name]) := by
  rw [h.resolve_joinPath hn, if_neg]
  exact not_or.mpr ⟨Nat.not_lt.mpr hroom.path, Nat.not_lt.mpr hroom.name⟩

theorem create_of_hasRoom (h : x.Houses folder p) (hn : IsPlainName name)
    (hroom : HasRoom folder name) : x.create (joinPath folder name) =
      if name ∈ x.children p then .error .exists else .ok (x.addFile (p ++ [name])) := by
  rw [create, h.resolve_of_hasRoom hn hroom]
  cases hnode : x.node? (p ++ [name]) with
  | some n => simp [bind, Except.bind, hnode, mem_children]
  | none => simp [bind, Except.bind, hnode, mem_children]

theorem hasRoom_of_create (h : x.Houses folder p) (hn : IsPlainName name)
    (hc : x.create (joinPath folder name) ≠ .error .nameTooLong) : HasRoom folder name := by
  by_contra hroom
  refine hc ?_
  rw [create, h.resolve_joinPath hn, if_pos]
  · rfl
  · by_contra hshort
    obtain ⟨hpath, hname⟩ := not_or.mp hshort
    exact hroom ⟨Nat.not_lt.mp hpath, Nat.not_lt.mp hname⟩

theorem create_eq_ok (h : x.Houses folder p) (hn : IsPlainName name)
    (hc : x.create (joinPath folder name) = .ok (y, id)) :
    name ∉ x.children p ∧ (y, id) = x.addFile (p ++ [name]) := by
  rw [h.create_of_hasRoom hn (h.hasRoom_of_create hn (by simp [hc]))] at hc
  split at hc
  · cases hc
  · rename_i hfree
    exact ⟨hfree, (Except.ok.inj hc).symm⟩

theorem mem_of_create_eq_exists (h : x.Houses folder p) (hn : IsPlainName name)
    (hc : x.create (joinPath folder name) = .error .exists) : name ∈ x.children p := by
  rw [h.create_of_hasRoom hn (h.hasRoom_of_create hn (by simp [hc]))] at hc
  split at hc
  · assumption
  · cases hc

theorem isSome_kind?_iff (h : x.Houses folder p) (hn : IsPlainName name)
    (hroom : HasRoom folder name) :
    (x.kind? (joinPath folder name)).isSome = true ↔ name ∈ x.children p := by
  rw [kind?, h.resolve_of_hasRoom hn hroom, mem_children]
  simp only [Option.isSome_map, Option.isSome_iff_ne_none]

end Houses

theorem kind?_of_create_eq_ok (h : x.create path = .ok (y, id)) : x.kind? path = none := by
  rw [create] at h
  cases hresolve : x.resolve path with
  | error e => simp [hresolve, bind, Except.bind] at h
  | ok q =>
      simp only [hresolve, bind, Except.bind] at h
      split at h
      · cases h
      · rename_i hnode
        rw [kind?, hresolve]
        simp only [hnode, Option.map_none]

/-! ## Trying names in turn -/

/-- Of different names one more than there are in a list, one is not in it. -/
theorem exists_not_mem {f : Nat → String} (hf : ∀ m n, f m = f n → m = n) (names : List String) :
    ∃ n ≤ names.length, f n ∉ names := by
  by_contra hall
  simp only [not_exists, not_and, not_not] at hall
  have hsubset : (List.range (names.length + 1)).map f ⊆ names := by
    intro name hname
    obtain ⟨n, hn, rfl⟩ := List.mem_map.mp hname
    exact hall n (Nat.le_of_lt_succ (List.mem_range.mp hn))
  have hnodup : ((List.range (names.length + 1)).map f).Nodup :=
    List.Nodup.map_on (fun m _ n _ => hf m n) List.nodup_range
  have hlength := (List.subperm_of_subset hnodup hsubset).length_le
  rw [List.length_map, List.length_range] at hlength
  omega

/-- Where paths are tried one after another, none is refused but for being taken. -/
def TriesFreely (x : Machine) (paths : Nat → String) : Prop :=
  ∀ n e, (∀ m < n, x.create (paths m) = .error .exists) → x.create (paths n) = .error e →
    e = .exists

/-- Where a name is free and there is room for all names up to it, no try is refused otherwise. -/
theorem Houses.triesFreely (h : x.Houses folder p) {f : Nat → String} {k : Nat}
    (hplain : ∀ n, IsPlainName (f n)) (hroom : ∀ n ≤ k, HasRoom folder (f n))
    (hfree : f k ∉ x.children p) : x.TriesFreely (fun n => joinPath folder (f n)) := by
  intro n e hbefore he
  rcases Nat.lt_or_ge k n with hlt | hle
  · exact (hfree (h.mem_of_create_eq_exists (hplain k) (hbefore k hlt))).elim
  · simp only [h.create_of_hasRoom (hplain n) (hroom n hle)] at he
    split at he
    · exact (Except.error.inj he).symm
    · cases he

/-- The search for a free path: all up to number `n` are taken, and that one is not. -/
structure FindsFree (x : Machine) (paths : Nat → String) (n : Nat) (p : TreePath) : Prop where
  taken : ∀ m < n, x.create (paths m) = .error .exists
  made : x.create (paths n) = .ok (x.addFile p)

/-- It is found however many tries are allowed beyond those that it takes. -/
theorem FindsFree.createFrom {paths : Nat → String} {n tries : Nat} (h : x.FindsFree paths n p)
    (htries : n < tries) :
    x.createFrom paths tries 0 = .ok ((x.addFile p).1, n, x.contents.length) :=
  createFrom_of_create (Nat.zero_le n) (by omega) (fun m _ hm => h.taken m hm) h.made

/-- Of different names in a folder one is free, and none is tried behind the first such. -/
theorem Houses.exists_findsFree (h : x.Houses folder p) {f : Nat → String}
    (hplain : ∀ n, IsPlainName (f n)) (hf : ∀ m n, f m = f n → m = n)
    (htries : x.TriesFreely (fun n => joinPath folder (f n))) :
    ∃ n ≤ (x.children p).length, x.FindsFree (fun n => joinPath folder (f n)) n (p ++ [f n]) := by
  obtain ⟨k, hk, hfree⟩ := exists_not_mem hf (x.children p)
  have hsome : ∃ n, f n ∉ x.children p := ⟨k, hfree⟩
  -- Up to the first free name every refusal has been that a name is taken.
  have hcreate : ∀ n ≤ Nat.find hsome, x.create (joinPath folder (f n)) =
      if f n ∈ x.children p then .error .exists else .ok (x.addFile (p ++ [f n])) := by
    intro n hn
    induction n using Nat.strongRecOn with
    | ind n ih =>
        refine h.create_of_hasRoom (hplain n) (h.hasRoom_of_create (hplain n) fun hlong => ?_)
        have hbefore : ∀ m < n, x.create (joinPath folder (f m)) = .error .exists := by
          intro m hm
          have hlt : m < Nat.find hsome := Nat.lt_of_lt_of_le hm hn
          rw [ih m hm (Nat.le_of_lt hlt), if_pos (Classical.not_not.mp (Nat.find_min hsome hlt))]
        cases htries n .nameTooLong hbefore hlong
  refine ⟨Nat.find hsome, Nat.le_trans (Nat.find_min' hsome hfree) hk, ?_, ?_⟩
  · intro m hm
    exact (hcreate m (Nat.le_of_lt hm)).trans
      (if_pos (Classical.not_not.mp (Nat.find_min hsome hm)))
  · exact (hcreate _ (Nat.le_refl _)).trans (if_neg (Nat.find_spec hsome))

namespace LeadsTo

/-- Opening a file leads to the one that is there, or to a new one. -/
theorem openFile_eq_ok (h : x.LeadsTo folder p) (hn : IsPlainName name)
    (ho : x.openFile (joinPath folder name) = .ok (y, id)) :
    x.resolve (joinPath folder name) = .ok (p ++ [name]) ∧
      (x.node? (p ++ [name]) = some (.file id) ∧ y = x ∨
        x.node? (p ++ [name]) = none ∧ (y, id) = x.addFile (p ++ [name])) := by
  have hresolve : x.resolve (joinPath folder name) = .ok (p ++ [name]) := by
    have heq := h.resolve_joinPath hn
    rw [heq]
    by_cases hlong : pathBound < (joinPath folder name).utf8ByteSize ∨
        nameBound < name.utf8ByteSize
    · rw [openFile, heq, if_pos hlong] at ho
      cases ho
    · rw [if_neg hlong]
  refine ⟨hresolve, ?_⟩
  rw [openFile, hresolve] at ho
  simp only [bind, Except.bind] at ho
  split at ho
  · cases ho
  · rename_i hnode
    obtain ⟨rfl, rfl⟩ := Prod.mk.inj (Except.ok.inj ho)
    exact .inl ⟨hnode, rfl⟩
  · rename_i hnode
    exact .inr ⟨hnode, (Except.ok.inj ho).symm⟩

theorem kind?_of_missing (h : x.LeadsTo folder p) (hn : IsPlainName name)
    (hmissing : x.node? (p ++ [name]) = none) {back : String} (hback : IsPlainName back) :
    x.kind? (joinPath (joinPath folder name) back) = none := by
  cases hkind : x.kind? (joinPath (joinPath folder name) back) with
  | none => rfl
  | some k =>
      obtain ⟨q, n, hresolve, -⟩ := exists_of_kind hkind
      obtain ⟨-, -, -, hwalk, -⟩ := resolve_eq_ok.mp hresolve
      obtain ⟨-, -, -, hfolder, -⟩ := resolve_eq_ok.mp h.resolves
      have hroot : x.root (joinPath (joinPath folder name) back) = x.root folder := by
        rw [root, root, startsWith_joinPath _ hback, startsWith_joinPath _ hn]
      rw [hroot, names_joinPath _ hback, names_joinPath _ hn, List.append_assoc,
        walk_append hfolder] at hwalk
      obtain ⟨-, -, hwalk⟩ := walk_cons_eq_ok.mp hwalk
      have hthere := (walk_cons_eq_ok.mp hwalk).1
      rw [next, if_neg hn.notUp, hmissing] at hthere
      cases hthere

end LeadsTo

theorem extends_append (x : Machine) (id : Nat) (bytes : ByteArray) :
    x.Extends (x.append id bytes) := ⟨fun _ _ hnode => hnode, rfl⟩

theorem extends_addFile (h : x.node? p = none) : x.Extends (x.addFile p).1 :=
  ⟨(extends_cons (n := .file x.contents.length) h).node, rfl⟩

/-! ## A first folder -/

/-- A machine with one folder and nothing in it. -/
def withFolder (name : String) : Machine := { empty with nodes := [([name], .folder)] }

theorem makeFolders_empty (hn : IsPlainName name) (hshort : name.utf8ByteSize ≤ nameBound) :
    empty.makeFolders name = .ok (withFolder name) := by
  have hroot : empty.root name = [] := ite_self _
  have hnext : next [] name = [name] := if_neg hn.notUp
  have hpath : name.utf8ByteSize ≤ pathBound := Nat.le_trans hshort (by decide)
  refine makeFolders_eq_ok.mpr ⟨hn.noNul, hpath, ?_⟩
  rw [hroot, names_of_plain hn]
  exact grow_cons_eq_ok.mpr ⟨hshort, withFolder name, .inr ⟨hnext ▸ rfl, hnext ▸ rfl⟩, rfl⟩

theorem node?_withFolder (name : String) : (withFolder name).node? [name] = some .folder := by
  refine (node?_cons empty [name] [name] .folder).trans ?_
  rw [if_neg (by simp), if_pos rfl]

theorem list_withFolder (hn : IsPlainName name) (hshort : name.utf8ByteSize ≤ nameBound) :
    (withFolder name).list name = .ok [] := by
  have hpath : name.utf8ByteSize ≤ pathBound := Nat.le_trans hshort (by decide)
  have hroot : (withFolder name).root name = [] := ite_self _
  have hnext : next [] name = [name] := if_neg hn.notUp
  have hresolve : (withFolder name).resolve name = .ok [name] := by
    refine resolve_eq_ok.mpr ⟨hn.nonempty, hn.noNul, hpath, ?_, ?_⟩
    · rw [hroot, names_of_plain hn]
      exact walk_cons_eq_ok.mpr ⟨rfl, hshort, hnext ▸ rfl⟩
    · simp [node?_withFolder]
  exact (LeadsTo.mk hresolve (node?_withFolder name)).list

theorem isTree_withFolder (name : String) : (withFolder name).IsTree := by
  intro p n hthere
  have hnode := node?_cons empty [name] (p ++ [n]) .folder
  rw [if_neg (by simp)] at hnode
  by_cases hp : p ++ [n] = [name]
  · have hroot : p = [] := by simpa using congrArg List.dropLast hp
    rw [hroot]
    rfl
  · rw [if_neg hp] at hnode
    refine (hthere (hnode.trans ?_)).elim
    cases p <;> rfl

/-! ## One file -/

/-- A machine with one file of text. -/
def withFile (name text : String) : Machine :=
  { empty with nodes := [([name], .file 0)], contents := [text.toUTF8] }

theorem read_withFile (hn : IsPlainName name) (hshort : name.utf8ByteSize ≤ nameBound)
    (text : String) : (withFile name text).read name = .ok text.toUTF8 := by
  have hpath : name.utf8ByteSize ≤ pathBound := Nat.le_trans hshort (by decide)
  have hroot : (withFile name text).root name = [] := ite_self _
  have hnext : next [] name = [name] := if_neg hn.notUp
  have hend : name.endsWith "/" = false := by
    rw [Bool.eq_false_iff, Ne, endsWith_iff]
    exact fun hslash => hn.noSlash (hslash.subset (List.mem_singleton_self '/'))
  have hresolve : (withFile name text).resolve name = .ok [name] := by
    refine resolve_eq_ok.mpr ⟨hn.nonempty, hn.noNul, hpath, ?_, ?_⟩
    · rw [hroot, names_of_plain hn]
      exact walk_cons_eq_ok.mpr ⟨rfl, hshort, hnext ▸ rfl⟩
    · simp [hend]
  have hnode : (withFile name text).node? [name] = some (.file 0) := by
    simp [node?, withFile]
  exact read_of_node hresolve hnode

end ImageBatch.Machine
