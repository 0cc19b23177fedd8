import ImageBatch.Machine
import Mathlib.Data.List.Basic

/-!
# Paths and folders

How a path is followed through the tree of a machine. A plain name behind the path of a folder leads
to the thing of that name in the folder, and what has been reached once stays in reach while the
tree grows.
-/

namespace ImageBatch

/-! ## Joining paths -/

/-- One name in a path: it stands for itself and for nothing else. -/
structure IsPlainName (name : String) : Prop where
  nonempty : name ≠ ""
  noSlash : '/' ∉ name.toList
  noNul : '\x00' ∉ name.toList
  notHere : name ≠ "."
  notUp : name ≠ ".."

theorem IsPlainName.startsWith_slash {name : String} (h : IsPlainName name) :
    name.startsWith "/" = false := by
  rw [String.startsWith_string_eq_false_iff]
  intro hslash
  exact h.noSlash (hslash.subset (List.mem_singleton_self '/'))

theorem endsWith_iff {s back : String} : s.endsWith back = true ↔ back.toList <:+ s.toList := by
  simp [← String.endsWith_toSlice]

theorem joinPath_cases (path : String) {name : String} (h : name.startsWith "/" = false) :
    path = "" ∧ joinPath path name = name ∨
    (∃ front, path = front ++ "/" ∧ joinPath path name = front ++ "/" ++ name) ∨
    path ≠ "" ∧ joinPath path name = path ++ "/" ++ name := by
  unfold joinPath
  rw [h, Bool.false_or]
  by_cases hempty : path = ""
  · exact .inl ⟨hempty, by simp [hempty]⟩
  · by_cases hend : path.endsWith "/" = true
    · obtain ⟨front, hfront⟩ := endsWith_iff.mp hend
      have hpath : path = String.ofList front ++ "/" := by
        rw [← String.toList_inj, String.toList_append, String.toList_ofList, hfront]
      refine .inr (.inl ⟨String.ofList front, hpath, ?_⟩)
      rw [if_neg (by simpa using hempty), if_pos hend, hpath]
    · refine .inr (.inr ⟨hempty, ?_⟩)
      rw [if_neg (by simpa using hempty), if_neg hend]

namespace Machine

theorem names_append_slash (front back : String) :
    names (front ++ "/" ++ back) = names front ++ names back := by
  have hsplit : (front ++ "/" ++ back).toList.splitOn '/' =
      front.toList.splitOn '/' ++ back.toList.splitOn '/' := by
    rw [String.toList_append, String.toList_append, List.append_assoc]
    exact List.splitOn_append_cons_self _ _
  rw [names, hsplit, List.map_append, List.filter_append]
  rfl

theorem names_empty : names "" = [] := by decide +kernel

theorem names_of_plain {name : String} (h : IsPlainName name) : names name = [name] := by
  have hsplit : name.toList.splitOn '/' = [name.toList] := List.splitOn_eq_singleton h.noSlash
  have hkeep : (!name.isEmpty && name != ".") = true := by simp [h.nonempty, h.notHere]
  rw [names, hsplit]
  simp [h.nonempty, h.notHere]

theorem names_joinPath (path : String) {name : String} (h : IsPlainName name) :
    names (joinPath path name) = names path ++ [name] := by
  rcases joinPath_cases path h.startsWith_slash with ⟨rfl, he⟩ | ⟨front, rfl, he⟩ | ⟨-, he⟩
  · rw [he, names_of_plain h, names_empty, List.nil_append]
  · have hfront : names (front ++ "/") = names front := by
      rw [← String.append_empty (s := front ++ "/"), names_append_slash, names_empty,
        List.append_nil]
    rw [he, names_append_slash, names_of_plain h, hfront]
  · rw [he, names_append_slash, names_of_plain h]

theorem contains_nul_joinPath (path : String) {name : String} (h : IsPlainName name) :
    (joinPath path name).toList.contains '\x00' = path.toList.contains '\x00' := by
  rcases joinPath_cases path h.startsWith_slash with ⟨rfl, he⟩ | ⟨front, rfl, he⟩ | ⟨-, he⟩ <;>
    simp [he, h.noNul]

theorem startsWith_append {front back word : String} (hfront : front ≠ "")
    (hword : word.toList.length = 1) :
    (front ++ back).startsWith word = front.startsWith word := by
  obtain ⟨c, cs, hc⟩ := List.exists_cons_of_ne_nil (by simpa using hfront : front.toList ≠ [])
  obtain ⟨d, hd⟩ := List.length_eq_one_iff.mp hword
  rw [Bool.eq_iff_iff, String.startsWith_string_iff, String.startsWith_string_iff,
    String.toList_append, hc, hd]
  simp

theorem startsWith_joinPath (path : String) {name : String} (h : IsPlainName name) :
    (joinPath path name).startsWith "/" = path.startsWith "/" := by
  rcases joinPath_cases path h.startsWith_slash with ⟨rfl, he⟩ | ⟨front, rfl, he⟩ | ⟨hne, he⟩
  · rw [he, h.startsWith_slash]
    decide +kernel
  · rw [he, startsWith_append (by simp) rfl]
  · rw [he, String.append_assoc, startsWith_append hne rfl]

theorem endsWith_joinPath (path : String) {name : String} (h : IsPlainName name) :
    (joinPath path name).endsWith "/" = false := by
  have hname : name.toList ≠ [] := by simpa using h.nonempty
  obtain ⟨front, c, hc⟩ := (List.eq_nil_or_concat name.toList).resolve_left hname
  have hends : ∀ s : String, (s ++ name).endsWith "/" = false := by
    intro s
    rw [Bool.eq_false_iff, Ne, endsWith_iff, String.toList_append, hc]
    rintro ⟨t, ht⟩
    have hlast : '/' = c := by simpa using congrArg List.getLast? ht
    refine h.noSlash ?_
    rw [hlast, hc]
    simp
  rcases joinPath_cases path h.startsWith_slash with ⟨rfl, he⟩ | ⟨front, rfl, he⟩ | ⟨-, he⟩
  · rw [he, ← String.empty_append (s := name)]
    exact hends _
  · exact he ▸ hends _
  · exact he ▸ hends _

/-! ## Following names -/

variable {x y z : Machine} {path name : String} {p q here : TreePath} {ns ms : List String}

/-- Where a name leads from a folder. -/
def next (here : TreePath) (name : String) : TreePath :=
  if name = ".." then here.dropLast else here ++ [name]

theorem walk_cons (hnode : x.node? here = some .folder) (hshort : name.utf8ByteSize ≤ nameBound)
    (rest : List String) : x.walk here (name :: rest) = x.walk (next here name) rest := by
  rw [walk, hnode, next]
  simp only [if_neg (Nat.not_lt.mpr hshort)]
  split <;> rfl

theorem walk_cons_eq_ok {rest : List String} : x.walk here (name :: rest) = .ok p ↔
    x.node? here = some .folder ∧ name.utf8ByteSize ≤ nameBound ∧
      x.walk (next here name) rest = .ok p := by
  constructor
  · intro h
    by_cases hstep : x.node? here = some .folder ∧ name.utf8ByteSize ≤ nameBound
    · exact ⟨hstep.1, hstep.2, walk_cons hstep.1 hstep.2 rest ▸ h⟩
    · rw [walk] at h
      split at h
      · cases h
      · cases h
      · rename_i hnode
        rw [if_pos (Nat.not_le.mp fun hshort => hstep ⟨hnode, hshort⟩)] at h
        cases h
  · rintro ⟨hnode, hshort, h⟩
    rw [walk_cons hnode hshort, h]

theorem walk_append (h : x.walk here ns = .ok p) (ms : List String) :
    x.walk here (ns ++ ms) = x.walk p ms := by
  induction ns generalizing here with
  | nil =>
      cases h
      rfl
  | cons name rest ih =>
      obtain ⟨hnode, hshort, h⟩ := walk_cons_eq_ok.mp h
      rw [List.cons_append, walk_cons hnode hshort, ih h]

/-! ## Making folders -/

/-- One machine with all that is in another one. -/
structure Extends (x y : Machine) : Prop where
  node : ∀ p n, x.node? p = some n → y.node? p = some n
  home : y.home = x.home

namespace Extends

theorem refl (x : Machine) : x.Extends x := ⟨fun _ _ h => h, rfl⟩

theorem trans (hxy : x.Extends y) (hyz : y.Extends z) : x.Extends z :=
  ⟨fun p n h => hyz.node p n (hxy.node p n h), hyz.home.trans hxy.home⟩

theorem walk (h : x.Extends y) (hp : x.walk here ns = .ok p) : y.walk here ns = .ok p := by
  induction ns generalizing here with
  | nil => exact hp
  | cons name rest ih =>
      obtain ⟨hnode, hshort, hp⟩ := walk_cons_eq_ok.mp hp
      exact walk_cons_eq_ok.mpr ⟨h.node _ _ hnode, hshort, ih hp⟩

end Extends

theorem node?_cons (x : Machine) (q p : TreePath) (n : Node) :
    ({ x with nodes := (q, n) :: x.nodes } : Machine).node? p =
      if p = [] then some .folder else if p = q then some n else x.node? p := by
  cases p with
  | nil => rfl
  | cons a p =>
      by_cases h : a :: p = q
      · subst h
        simp [node?]
      · have hkey : (a :: p == q) = false := beq_false_of_ne h
        simp [node?, List.lookup_cons, h, hkey]

theorem extends_cons {n : Node} (h : x.node? q = none) :
    x.Extends { x with nodes := (q, n) :: x.nodes } := by
  refine ⟨?_, rfl⟩
  intro p m hp
  rw [node?_cons]
  split
  · rename_i hroot
    rwa [hroot] at hp
  · split
    · rename_i hsame
      rw [hsame, h] at hp
      cases hp
    · exact hp

/-- One folder is made, unless it is there. -/
def MakesFolder (x : Machine) (p : TreePath) (y : Machine) : Prop :=
  x.node? p = some .folder ∧ y = x ∨
    x.node? p = none ∧ y = { x with nodes := (p, .folder) :: x.nodes }

theorem grow_cons {rest : List String} (hshort : name.utf8ByteSize ≤ nameBound)
    (hy : x.MakesFolder (next here name) y) :
    x.grow here (name :: rest) = y.grow (next here name) rest := by
  have hnext : (if name = ".." then here.dropLast else here ++ [name]) = next here name := rfl
  rw [grow, if_neg (Nat.not_lt.mpr hshort)]
  rcases hy with ⟨hnode, rfl⟩ | ⟨hnode, rfl⟩
  all_goals simp only [hnext, hnode]

theorem grow_cons_eq_ok {rest : List String} : x.grow here (name :: rest) = .ok z ↔
    name.utf8ByteSize ≤ nameBound ∧
      ∃ y, x.MakesFolder (next here name) y ∧ y.grow (next here name) rest = .ok z := by
  constructor
  · intro h
    by_cases hlong : nameBound < name.utf8ByteSize
    · rw [grow, if_pos hlong] at h
      cases h
    · refine ⟨Nat.not_lt.mp hlong, ?_⟩
      rcases hnode : x.node? (next here name) with _ | ⟨_ | id⟩
      · have hmakes : x.MakesFolder (next here name) _ := .inr ⟨hnode, rfl⟩
        exact ⟨_, hmakes, grow_cons (Nat.not_lt.mp hlong) hmakes ▸ h⟩
      · have hmakes : x.MakesFolder (next here name) _ := .inl ⟨hnode, rfl⟩
        exact ⟨_, hmakes, grow_cons (Nat.not_lt.mp hlong) hmakes ▸ h⟩
      · have hnext : (if name = ".." then here.dropLast else here ++ [name]) = next here name := rfl
        simp only [grow, if_neg hlong, hnext, hnode] at h
        cases h
  · rintro ⟨hshort, y, hy, h⟩
    rw [grow_cons hshort hy, h]

theorem grow_append (h : x.grow here ns = .ok y) (hp : y.walk here ns = .ok p) (ms : List String) :
    x.grow here (ns ++ ms) = y.grow p ms := by
  induction ns generalizing x here with
  | nil =>
      cases h
      cases hp
      rfl
  | cons name rest ih =>
      obtain ⟨hshort, z, hz, h⟩ := grow_cons_eq_ok.mp h
      rw [List.cons_append, grow_cons hshort hz, ih h (walk_cons_eq_ok.mp hp).2.2]

theorem grow_setClock (x : Machine) (t : Instant) (here : TreePath) (ns : List String) :
    ({ x with clock := t } : Machine).grow here ns =
      (x.grow here ns).map (fun y => { y with clock := t }) := by
  induction ns generalizing x here with
  | nil => rfl
  | cons name rest ih =>
      have hnode : ∀ q, ({ x with clock := t } : Machine).node? q = x.node? q := fun _ => rfl
      simp only [grow, hnode]
      split
      · rfl
      · split
        · exact ih x _
        · rfl
        · exact ih { x with nodes := (_, .folder) :: x.nodes } _

/-- Nothing is lost where folders are made, and nothing changes but the tree. -/
structure Grows (x y : Machine) : Prop where
  keeps : x.Extends y
  same : y = { x with nodes := y.nodes }

theorem grows_of_grow (h : x.grow here ns = .ok y) : x.Grows y := by
  induction ns generalizing x here with
  | nil =>
      cases h
      exact ⟨.refl _, rfl⟩
  | cons name rest ih =>
      obtain ⟨-, z, hz, h⟩ := grow_cons_eq_ok.mp h
      have hrest := ih h
      rcases hz with ⟨-, rfl⟩ | ⟨hnode, rfl⟩
      · exact hrest
      · exact ⟨(extends_cons hnode).trans hrest.keeps, hrest.same⟩

theorem grow_of_walk (hp : x.walk here ns = .ok p) (hx : x.node? p = some .folder) :
    x.grow here ns = .ok x := by
  induction ns generalizing here with
  | nil => rfl
  | cons name rest ih =>
      obtain ⟨hnode, hshort, hp⟩ := walk_cons_eq_ok.mp hp
      refine grow_cons_eq_ok.mpr ⟨hshort, x, .inl ⟨?_, rfl⟩, ih hp⟩
      cases rest with
      | nil =>
          cases hp
          exact hx
      | cons next rest => exact (walk_cons_eq_ok.mp hp).1

/-! ## Resolving paths -/

/-- Where a path starts. -/
def root (x : Machine) (path : String) : TreePath := if path.startsWith "/" then [] else x.home

theorem slash_eq_ok (slash : Bool) (n : Option Node) (q p : TreePath) :
    (match slash, n with
      | true, some (.file _) => (.error .notFolder : Except FileError TreePath)
      | _, _ => .ok q) = .ok p ↔ q = p ∧ (slash = true → ∀ id, n ≠ some (.file id)) := by
  cases slash with
  | false => simp
  | true =>
      rcases n with _ | ⟨_ | id⟩ <;> simp

theorem resolve_eq_ok : x.resolve path = .ok p ↔
    path ≠ "" ∧ '\x00' ∉ path.toList ∧ path.utf8ByteSize ≤ pathBound ∧
      x.walk (x.root path) (names path) = .ok p ∧
      (path.endsWith "/" = true → ∀ id, x.node? p ≠ some (.file id)) := by
  have hroot : (if path.startsWith "/" then [] else x.home) = x.root path := rfl
  rw [resolve, hroot]
  by_cases hempty : path = ""
  · simp [hempty]
  · by_cases hnul : '\x00' ∈ path.toList
    · simp [hempty, hnul]
    · by_cases hlong : pathBound < path.utf8ByteSize
      · simp [hempty, hnul, hlong, Nat.not_le.mpr hlong]
      · cases hwalk : x.walk (x.root path) (names path) with
        | error e => simp [hempty, hnul, hlong, bind, Except.bind]
        | ok q =>
            simp only [hempty, hnul, hlong, bind, Except.bind, String.isEmpty_iff,
              List.contains_iff_mem, if_false, ne_eq, not_false_eq_true, Nat.not_lt.mp hlong,
              true_and, Except.ok.injEq]
            refine (slash_eq_ok _ _ q p).trans ?_
            constructor
            · rintro ⟨rfl, h⟩
              exact ⟨rfl, h⟩
            · rintro ⟨rfl, h⟩
              exact ⟨rfl, h⟩

theorem Extends.resolve {n : Node} (hxy : x.Extends y) (h : x.resolve path = .ok p)
    (hn : x.node? p = some n) : y.resolve path = .ok p := by
  obtain ⟨hempty, hnul, hshort, hwalk, hslash⟩ := resolve_eq_ok.mp h
  have hroot : y.root path = x.root path := by rw [root, root, hxy.home]
  refine resolve_eq_ok.mpr ⟨hempty, hnul, hshort, hroot ▸ hxy.walk hwalk, ?_⟩
  rw [hxy.node p n hn, ← hn]
  exact hslash

theorem makeFolders_eq_ok : x.makeFolders path = .ok y ↔
    '\x00' ∉ path.toList ∧ path.utf8ByteSize ≤ pathBound ∧
      x.grow (x.root path) (names path) = .ok y := by
  have hroot : (if path.startsWith "/" then [] else x.home) = x.root path := rfl
  rw [makeFolders, hroot]
  by_cases hnul : '\x00' ∈ path.toList
  · simp [hnul]
  · by_cases hlong : pathBound < path.utf8ByteSize
    · simp [hnul, hlong, Nat.not_le.mpr hlong]
    · simp [hnul, hlong, Nat.not_lt.mp hlong]

theorem makeFolders_setClock (h : x.makeFolders path = .ok y) (t : Instant) :
    ({ x with clock := t } : Machine).makeFolders path = .ok { y with clock := t } := by
  obtain ⟨hnul, hshort, hgrow⟩ := makeFolders_eq_ok.mp h
  refine makeFolders_eq_ok.mpr ⟨hnul, hshort, ?_⟩
  have hgrown := grow_setClock x t (x.root path) (names path)
  rwa [hgrow] at hgrown

theorem grows_of_makeFolders (h : x.makeFolders path = .ok y) : x.Grows y :=
  grows_of_grow (makeFolders_eq_ok.mp h).2.2

/-- Names behind a path are those of the things in a folder of the tree. Behind the empty path they
are those of the things at home. -/
structure Houses (x : Machine) (path : String) (p : TreePath) : Prop where
  noNul : '\x00' ∉ path.toList
  short : path.utf8ByteSize ≤ pathBound
  walks : x.walk (x.root path) (names path) = .ok p
  node : x.node? p = some .folder

namespace Houses

theorem home (h : x.node? x.home = some .folder) : x.Houses "" x.home := by
  refine ⟨by decide, by decide, ?_, h⟩
  have hroot : x.root "" = x.home := if_neg (by decide +kernel)
  rw [hroot, names_empty, walk]

theorem of_extends (h : x.Houses path p) (hxy : x.Extends y) : y.Houses path p := by
  have hroot : y.root path = x.root path := by rw [root, root, hxy.home]
  exact ⟨h.noNul, h.short, hroot ▸ hxy.walk h.walks, hxy.node _ _ h.node⟩

theorem makeFolders (h : x.Houses path p) : x.makeFolders path = .ok x :=
  makeFolders_eq_ok.mpr ⟨h.noNul, h.short, grow_of_walk h.walks h.node⟩

/-- A plain name behind the path leads to the thing of that name in the folder. -/
theorem resolve_joinPath (h : x.Houses path p) (hn : IsPlainName name) :
    x.resolve (joinPath path name) =
      if pathBound < (joinPath path name).utf8ByteSize ∨ nameBound < name.utf8ByteSize then
        .error .nameTooLong
      else .ok (p ++ [name]) := by
  have hroot : (if (joinPath path name).startsWith "/" then [] else x.home) = x.root path := by
    rw [startsWith_joinPath path hn]
    rfl
  have hstep : x.walk (x.root path) (names (joinPath path name)) =
      if nameBound < name.utf8ByteSize then .error .nameTooLong else .ok (p ++ [name]) := by
    rw [names_joinPath path hn, walk_append h.walks, walk, h.node]
    simp only [if_neg hn.notUp, walk]
  have hnul : (joinPath path name).toList.contains '\x00' = false := by
    rw [contains_nul_joinPath path hn]
    simpa using h.noNul
  have hempty : (joinPath path name).isEmpty = false := by
    rcases joinPath_cases path hn.startsWith_slash with ⟨-, he⟩ | ⟨front, -, he⟩ | ⟨-, he⟩ <;>
      simp [he, hn.nonempty]
  rw [resolve, hroot, hstep, hnul, hempty, endsWith_joinPath path hn]
  by_cases hlong : pathBound < (joinPath path name).utf8ByteSize
  · simp [hlong]
  · by_cases hlong' : nameBound < name.utf8ByteSize
    · simp [hlong, hlong', bind, Except.bind]
    · simp [hlong, hlong', bind, Except.bind]

end Houses

/-- A path leads to a folder. -/
structure LeadsTo (x : Machine) (path : String) (p : TreePath) : Prop where
  resolves : x.resolve path = .ok p
  node : x.node? p = some .folder

theorem LeadsTo.houses (h : x.LeadsTo path p) : x.Houses path p := by
  obtain ⟨-, hnul, hshort, hwalk, -⟩ := resolve_eq_ok.mp h.resolves
  exact ⟨hnul, hshort, hwalk, h.node⟩

theorem Houses.leadsTo (h : x.Houses path p) (hpath : path ≠ "") : x.LeadsTo path p := by
  refine ⟨resolve_eq_ok.mpr ⟨hpath, h.noNul, h.short, h.walks, ?_⟩, h.node⟩
  intro _ id hfile
  rw [h.node] at hfile
  cases hfile

namespace LeadsTo

theorem of_extends (h : x.LeadsTo path p) (hxy : x.Extends y) : y.LeadsTo path p :=
  ⟨hxy.resolve h.resolves h.node, hxy.node _ _ h.node⟩

theorem makeFolders (h : x.LeadsTo path p) : x.makeFolders path = .ok x := h.houses.makeFolders

theorem resolve_joinPath (h : x.LeadsTo path p) (hn : IsPlainName name) :
    x.resolve (joinPath path name) =
      if pathBound < (joinPath path name).utf8ByteSize ∨ nameBound < name.utf8ByteSize then
        .error .nameTooLong
      else .ok (p ++ [name]) := h.houses.resolve_joinPath hn

theorem resolve_joinPath_eq (h : x.LeadsTo path p) (hy : y.LeadsTo path p) (hn : IsPlainName name) :
    y.resolve (joinPath path name) = x.resolve (joinPath path name) := by
  rw [hy.resolve_joinPath hn, h.resolve_joinPath hn]

end LeadsTo

/-- A folder of a plain name is made in another folder, whether that one is there or not. -/
theorem makeFolders_joinPath (hmade : x.makeFolders path = .ok y) (h : y.LeadsTo path p)
    (hn : IsPlainName name) (hz : x.makeFolders (joinPath path name) = .ok z) :
    y.MakesFolder (p ++ [name]) z ∧ z.LeadsTo (joinPath path name) (p ++ [name]) := by
  obtain ⟨-, -, hgrow⟩ := makeFolders_eq_ok.mp hmade
  obtain ⟨-, -, -, hwalk, -⟩ := resolve_eq_ok.mp h.resolves
  obtain ⟨-, hshort, hgrowz⟩ := makeFolders_eq_ok.mp hz
  have hroot : x.root (joinPath path name) = x.root path := by
    rw [root, root, startsWith_joinPath path hn]
  have hrooty : y.root path = x.root path := by
    rw [root, root, (grows_of_grow hgrow).keeps.home]
  rw [hroot, names_joinPath path hn, grow_append hgrow (hrooty ▸ hwalk)] at hgrowz
  obtain ⟨hname, w, hw, hnil⟩ := grow_cons_eq_ok.mp hgrowz
  have hnext : next p name = p ++ [name] := if_neg hn.notUp
  have hwz : w = z := Except.ok.inj hnil
  subst hwz
  rw [hnext] at hw
  refine ⟨hw, ?_, ?_⟩
  · have hkeeps := (grows_of_grow (grow_cons_eq_ok.mpr ⟨hname, w, hnext ▸ hw, hnil⟩)).keeps
    rw [(h.of_extends hkeeps).resolve_joinPath hn, if_neg]
    exact not_or.mpr ⟨Nat.not_lt.mpr hshort, Nat.not_lt.mpr hname⟩
  · rcases hw with ⟨hnode, rfl⟩ | ⟨-, rfl⟩
    · exact hnode
    · rw [node?_cons, if_pos rfl]
      exact ite_self _

/-- In a folder that is made nothing is made otherwise than in one that is there. -/
theorem makeFolders_joinPath_eq (hmade : x.makeFolders path = .ok y) (h : y.LeadsTo path p)
    (hn : IsPlainName name) :
    x.makeFolders (joinPath path name) = y.makeFolders (joinPath path name) := by
  obtain ⟨-, -, hgrow⟩ := makeFolders_eq_ok.mp hmade
  obtain ⟨-, -, hgrowy⟩ := makeFolders_eq_ok.mp h.makeFolders
  obtain ⟨-, -, -, hwalk, -⟩ := resolve_eq_ok.mp h.resolves
  have hrooty : y.root path = x.root path := by
    rw [root, root, (grows_of_grow hgrow).keeps.home]
  have hroots : ∀ w : Machine,
      (if (joinPath path name).startsWith "/" then [] else w.home) = w.root path := by
    intro w
    rw [startsWith_joinPath path hn]
    rfl
  rw [makeFolders, makeFolders, hroots, hroots, names_joinPath path hn,
    grow_append hgrow (hrooty ▸ hwalk), grow_append hgrowy hwalk]

/-! ## What is in a folder -/

theorem eq_append_singleton {name : String} :
    q = p ++ [name] ↔ q.dropLast = p ∧ q.getLast? = some name := by
  constructor
  · rintro rfl
    simp
  · rintro ⟨rfl, hlast⟩
    exact (List.dropLast_append_getLast? name hlast).symm

theorem mem_children : name ∈ x.children p ↔ x.node? (p ++ [name]) ≠ none := by
  have hnode : x.node? (p ++ [name]) = x.nodes.lookup (p ++ [name]) := by
    cases p <;> rfl
  rw [hnode, Ne, List.lookup_eq_none_iff, children, List.mem_filterMap]
  constructor
  · rintro ⟨n, hn, hname⟩ hnone
    obtain ⟨hfolder, hlast⟩ := Option.ite_none_right_eq_some.mp hname
    have hkey : n.1 = p ++ [name] := eq_append_singleton.mpr ⟨hfolder, hlast⟩
    simpa [hkey] using hnone n hn
  · intro hsome
    push Not at hsome
    obtain ⟨n, hn, hkey⟩ := hsome
    obtain ⟨hfolder, hlast⟩ := eq_append_singleton.mp (by simpa using hkey : p ++ [name] = n.1).symm
    exact ⟨n, hn, by rw [if_pos hfolder, hlast]⟩

/-- Every thing stands in a folder. -/
def IsTree (x : Machine) : Prop :=
  ∀ p name, x.node? (p ++ [name]) ≠ none → x.node? p = some .folder

theorem IsTree.node?_eq_none (h : x.IsTree) (hp : x.node? p = none) (name : String) :
    x.node? (p ++ [name]) = none := by
  by_contra hthere
  rw [h p name hthere] at hp
  cases hp

theorem children_cons (x : Machine) (p q : TreePath) (name : String) (n : Node) :
    ({ x with nodes := (q ++ [name], n) :: x.nodes } : Machine).children p =
      if q = p then name :: x.children p else x.children p := by
  unfold children
  by_cases h : q = p
  · simp [h]
  · simp [h]

end Machine

end ImageBatch
