import ImageBatch.Proofs.Machine.Requests
import Mathlib.Data.List.GetD
import Mathlib.Data.List.Induction

/-!
# Sound machines

On a sound machine every thing stands in a folder and every file has a content. Making folders and
files keeps it so. A path that folders were made for leads to a folder, and nothing new stands in
that folder unless the path goes up again.
-/

namespace ImageBatch.Machine

variable {x y : Machine} {path name : String} {p q here : TreePath} {ns : List String} {id : Nat}

/-- A tree of folders and files as there can be one. -/
structure IsSound (x : Machine) : Prop where
  tree : x.IsTree
  home : x.node? x.home = some .folder
  files : ∀ q id, x.node? q = some (.file id) → id < x.contents.length

theorem IsSound.root (h : x.IsSound) (path : String) : x.node? (x.root path) = some .folder := by
  unfold Machine.root
  split
  · rfl
  · exact h.home

/-! ## New things -/

theorem IsTree.cons {n : Node} (h : x.IsTree) (hfolder : x.node? q = some .folder)
    (hfree : x.node? (q ++ [name]) = none) :
    ({ x with nodes := (q ++ [name], n) :: x.nodes } : Machine).IsTree := by
  have hextends : x.Extends { x with nodes := (q ++ [name], n) :: x.nodes } := extends_cons hfree
  intro p other hthere
  rw [node?_cons, if_neg (by simp)] at hthere
  split at hthere
  · rename_i hsame
    have hp : p = q := by simpa using congrArg List.dropLast hsame
    exact hp ▸ hextends.node q .folder hfolder
  · exact hextends.node p .folder (h p other hthere)

theorem IsTree.folder_of_append (h : x.IsTree) {q : TreePath}
    (hfolder : x.node? (p ++ q) = some .folder) : x.node? p = some .folder := by
  induction q using List.reverseRecOn with
  | nil => rwa [List.append_nil] at hfolder
  | append_singleton q name ih =>
      rw [← List.append_assoc] at hfolder
      exact ih (h (p ++ q) name (hfolder ▸ Option.some_ne_none _))

theorem IsTree.dropLast (h : x.IsTree) (hhere : x.node? here = some .folder) :
    x.node? here.dropLast = some .folder := by
  rcases List.eq_nil_or_concat here with rfl | ⟨q, name, rfl⟩
  · exact hhere
  · rw [List.concat_eq_append] at hhere ⊢
    rw [List.dropLast_concat]
    exact h q name (hhere ▸ Option.some_ne_none _)

/-- The machine with one file more. -/
def plusFile (x : Machine) (p : TreePath) (bytes : ByteArray) : Machine :=
  { x with
    nodes := (p, .file x.contents.length) :: x.nodes
    contents := x.contents ++ [bytes] }

theorem append_addFile (x : Machine) (p : TreePath) (bytes : ByteArray) :
    (x.addFile p).1.append x.contents.length bytes = x.plusFile p bytes := by
  simp [addFile, append, setContent, plusFile, List.set_append_right]

theorem node?_plusFile (x : Machine) (p q : TreePath) (bytes : ByteArray) :
    (x.plusFile p bytes).node? q =
      if q = [] then some .folder else if q = p then some (.file x.contents.length)
      else x.node? q := node?_cons x p q _

theorem extends_plusFile (h : x.node? p = none) (bytes : ByteArray) :
    x.Extends (x.plusFile p bytes) :=
  ⟨(extends_cons (n := .file x.contents.length) h).node, rfl⟩

theorem IsSound.plusFile (hx : x.IsSound) (hfolder : x.node? q = some .folder)
    (hfree : x.node? (q ++ [name]) = none) (bytes : ByteArray) :
    (x.plusFile (q ++ [name]) bytes).IsSound := by
  refine ⟨hx.tree.cons hfolder hfree, (extends_plusFile hfree bytes).node _ _ hx.home, ?_⟩
  intro p id hfile
  have hlength : (x.plusFile (q ++ [name]) bytes).contents.length = x.contents.length + 1 :=
    List.length_append
  rw [node?_plusFile] at hfile
  split at hfile
  · cases hfile
  · split at hfile
    · cases hfile
      omega
    · have hid := hx.files p id hfile
      omega

/-- What could be read can be read again if no content has changed. -/
theorem IsSound.read_of_extends (hx : x.IsSound) (hxy : x.Extends y)
    (hcontents : x.contents <+: y.contents) {bytes : ByteArray} (h : x.read path = .ok bytes) :
    y.read path = .ok bytes := by
  obtain ⟨p, id, hresolve, hnode, rfl⟩ := read_eq_ok h
  obtain ⟨back, hback⟩ := hcontents
  rw [read_of_node (hxy.resolve hresolve hnode) (hxy.node p _ hnode), ← hback,
    List.getD_append _ _ _ _ (hx.files p id hnode)]

/-! ## Making folders -/

theorem MakesFolder.node (h : x.MakesFolder p y) : y.node? p = some .folder := by
  rcases h with ⟨hnode, rfl⟩ | ⟨-, rfl⟩
  · exact hnode
  · rw [node?_cons, if_pos rfl]
    exact ite_self _

theorem IsSound.plusFolder (hx : x.IsSound) (hfolder : x.node? q = some .folder)
    (hfree : x.node? (q ++ [name]) = none) :
    ({ x with nodes := (q ++ [name], .folder) :: x.nodes } : Machine).IsSound := by
  refine ⟨hx.tree.cons hfolder hfree, (extends_cons hfree).node _ _ hx.home, ?_⟩
  intro p id hfile
  rw [node?_cons] at hfile
  split at hfile
  · cases hfile
  · split at hfile
    · cases hfile
    · exact hx.files p id hfile

theorem MakesFolder.isSound (h : x.MakesFolder (next here name) y) (hx : x.IsSound)
    (hhere : x.node? here = some .folder) : y.IsSound := by
  rcases h with ⟨-, rfl⟩ | ⟨hfree, rfl⟩
  · exact hx
  · unfold next at hfree ⊢
    split at hfree
    · rw [hx.tree.dropLast hhere] at hfree
      cases hfree
    · rename_i hup
      rw [if_neg hup]
      exact hx.plusFolder hhere hfree

theorem IsSound.grow (hx : x.IsSound) (hhere : x.node? here = some .folder)
    (h : x.grow here ns = .ok y) : y.IsSound := by
  induction ns generalizing x here with
  | nil =>
      cases h
      exact hx
  | cons name rest ih =>
      obtain ⟨-, z, hz, h⟩ := grow_cons_eq_ok.mp h
      exact ih (hz.isSound hx hhere) hz.node h

/-- Along names for which folders were made a path leads to a folder. -/
theorem exists_walk_of_grow (hhere : x.node? here = some .folder) (h : x.grow here ns = .ok y) :
    ∃ p, y.walk here ns = .ok p ∧ y.node? p = some .folder := by
  induction ns generalizing x here with
  | nil =>
      cases h
      exact ⟨here, rfl, hhere⟩
  | cons name rest ih =>
      have hkeeps := (grows_of_grow h).keeps
      obtain ⟨hshort, z, hz, h⟩ := grow_cons_eq_ok.mp h
      obtain ⟨p, hwalk, hfolder⟩ := ih hz.node h
      exact ⟨p, walk_cons_eq_ok.mpr ⟨hkeeps.node _ _ hhere, hshort, hwalk⟩, hfolder⟩

theorem file_of_grow (h : x.grow here ns = .ok y) (hfile : y.node? q = some (.file id)) :
    x.node? q = some (.file id) := by
  induction ns generalizing x here with
  | nil =>
      cases h
      exact hfile
  | cons name rest ih =>
      obtain ⟨-, z, hz, h⟩ := grow_cons_eq_ok.mp h
      have hthere := ih h
      rcases hz with ⟨-, rfl⟩ | ⟨-, rfl⟩
      · exact hthere
      · rw [node?_cons] at hthere
        split at hthere
        · cases hthere
        · split at hthere
          · cases hthere
          · exact hthere

theorem IsSound.makeFolders (hx : x.IsSound) (h : x.makeFolders path = .ok y) : y.IsSound :=
  hx.grow (hx.root path) (makeFolders_eq_ok.mp h).2.2

/-- Where folders were made for a path, there is one for names behind it. -/
theorem IsSound.houses_of_makeFolders (hx : x.IsSound) (h : x.makeFolders path = .ok y) :
    ∃ p, y.Houses path p := by
  obtain ⟨hnul, hshort, hgrow⟩ := makeFolders_eq_ok.mp h
  obtain ⟨p, hwalk, hfolder⟩ := exists_walk_of_grow (hx.root path) hgrow
  have hroot : y.root path = x.root path := by
    rw [Machine.root, Machine.root, (grows_of_grow hgrow).keeps.home]
  exact ⟨p, hnul, hshort, hroot ▸ hwalk, hfolder⟩

theorem isSound_empty (t : Instant) : ({ empty with clock := t } : Machine).IsSound := by
  have hnone : ∀ p name, ({ empty with clock := t } : Machine).node? (p ++ [name]) = none := by
    intro p name
    cases p <;> rfl
  refine ⟨fun p name hthere => (hthere (hnone p name)).elim, rfl, ?_⟩
  intro q id hfile
  rcases List.eq_nil_or_concat q with rfl | ⟨p, name, rfl⟩
  · cases hfile
  · rw [List.concat_eq_append, hnone p name] at hfile
    cases hfile

/-! ## Paths that do not go up -/

variable (hup : ".." ∉ ns)

include hup

theorem node?_of_grow (h : x.grow here ns = .ok y) (q : TreePath) :
    y.node? q = x.node? q ∨ q <+: here ++ ns := by
  induction ns generalizing x here with
  | nil =>
      cases h
      exact .inl rfl
  | cons name rest ih =>
      obtain ⟨hname, hrest⟩ := List.ne_and_not_mem_of_not_mem_cons hup
      obtain ⟨-, z, hz, h⟩ := grow_cons_eq_ok.mp h
      have hnext : next here name = here ++ [name] := if_neg (Ne.symm hname)
      have hsplit : here ++ name :: rest = here ++ [name] ++ rest := by simp
      rw [hnext] at hz h
      rw [hsplit]
      rcases ih hrest h with hsame | hfront
      · rcases hz with ⟨-, rfl⟩ | ⟨-, rfl⟩
        · exact .inl hsame
        · rw [node?_cons] at hsame
          by_cases hq : q = here ++ [name]
          · exact .inr (hq ▸ List.prefix_append _ rest)
          · rw [if_neg hq] at hsame
            by_cases hroot : q = []
            · exact .inr (hroot ▸ List.nil_prefix)
            · exact .inl (by rwa [if_neg hroot] at hsame)
      · exact .inr hfront

theorem eq_append_of_walk (h : x.walk here ns = .ok p) : p = here ++ ns := by
  induction ns generalizing here with
  | nil =>
      cases h
      exact (List.append_nil _).symm
  | cons name rest ih =>
      obtain ⟨hname, hrest⟩ := List.ne_and_not_mem_of_not_mem_cons hup
      obtain ⟨-, -, h⟩ := walk_cons_eq_ok.mp h
      rw [next, if_neg (Ne.symm hname)] at h
      rw [ih hrest h, List.append_assoc, List.singleton_append]

theorem IsTree.eq_of_grow (htree : x.IsTree) (hfolder : x.node? (here ++ ns) = some .folder)
    (h : x.grow here ns = .ok y) : y = x := by
  induction ns generalizing here with
  | nil =>
      cases h
      rfl
  | cons name rest ih =>
      obtain ⟨hname, hrest⟩ := List.ne_and_not_mem_of_not_mem_cons hup
      obtain ⟨-, z, hz, hgo⟩ := grow_cons_eq_ok.mp h
      have hnext : next here name = here ++ [name] := if_neg (Ne.symm hname)
      have hsplit : here ++ name :: rest = here ++ [name] ++ rest := by simp
      rw [hsplit] at hfolder
      rw [hnext] at hz hgo
      have hthere : x.node? (here ++ [name]) = some .folder := htree.folder_of_append hfolder
      rcases hz with ⟨-, rfl⟩ | ⟨hfree, -⟩
      · exact ih hrest hfolder hgo
      · rw [hthere] at hfree
        cases hfree

omit hup

/-- A folder that had to be made is empty, if the path to it does not go up. -/
theorem IsSound.children_of_made (hx : x.IsSound) (hup : ".." ∉ names path)
    (hmade : x.makeFolders path = .ok y) (hleads : y.LeadsTo path p) (hnone : x.kind? path = none) :
    y.children p = [] := by
  obtain ⟨-, -, hgrow⟩ := makeFolders_eq_ok.mp hmade
  obtain ⟨-, -, -, hwalk, -⟩ := resolve_eq_ok.mp hleads.resolves
  have hroot : y.root path = x.root path := by
    rw [Machine.root, Machine.root, (grows_of_grow hgrow).keeps.home]
  have hp : p = x.root path ++ names path := eq_append_of_walk hup (hroot ▸ hwalk)
  refine List.eq_nil_iff_forall_not_mem.mpr fun name hname => ?_
  rcases node?_of_grow hup hgrow (p ++ [name]) with hsame | hfront
  · have hfolder : x.node? p = some .folder := hx.tree p name (hsame ▸ mem_children.mp hname)
    have hyx : y = x := hx.tree.eq_of_grow hup (hp ▸ hfolder) hgrow
    have hkind : x.kind? path = some .folder := (hyx ▸ hleads).kind
    rw [hkind] at hnone
    cases hnone
  · have hlength := hfront.length_le
    rw [← hp, List.length_append, List.length_singleton] at hlength
    omega

end ImageBatch.Machine
