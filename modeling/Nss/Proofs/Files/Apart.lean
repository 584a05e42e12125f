/-
# Files apart from each other

A file that was written stays as it is while files are written at other places (`read_write_of_ne`).
The place that a path leads to is a matter of its parts alone (`place`), as long as they can be
followed.

The files below a directory lie at different places: the names that lead to them are different
(`nodup_files`), and each path leads to where the names do (`place_foldl_join`).
-/
import Mathlib.Data.List.Nodup
import Nss.Proofs.Files.Entries

namespace Nss

open Steps

/-! ## Nodes -/

namespace FileNode

variable {es : List (String × FileNode)} {node new : FileNode} {content : Bytes} {name : String}

/-- A file stays as it is when something is put into a directory at another place, where there is no
directory. -/
theorem at?_put_of_ne (above : List String) : ∀ {node : FileNode} {place : List String},
    node.at? place = some (file content) → node.at? above = some (dir es) →
      (∀ es', child? es name ≠ some (dir es')) → place ≠ above ++ [name] →
        (node.put (above ++ [name]) new).at? place = some (file content) := by
  induction above with
  | nil =>
      intro node place hfile hdir hfree hne
      obtain rfl := Option.some.inj hdir
      cases place with
      | nil => cases hfile
      | cons first rest =>
          obtain ⟨c, hc, hrest⟩ := Option.bind_eq_some_iff.mp hfile
          have hfirst : first ≠ name := by
            rintro rfl
            cases rest with
            | nil => exact hne rfl
            | cons next rest =>
                -- what lies further on lies in a directory
                obtain ⟨inner, hinner, -⟩ := Option.bind_eq_some_iff.mp hrest
                exact hfree c.entries (hc.trans (congrArg some (eq_dir_of_child? hinner)))
          rw [List.nil_append, at?_cons, entries_put, child?_setEntry_of_ne hfirst]
          exact hfile
  | cons first above ih =>
      intro node place hfile hdir hfree hne
      obtain ⟨c, hc, habove⟩ := Option.bind_eq_some_iff.mp hdir
      cases place with
      | nil =>
          obtain rfl := Option.some.inj hfile
          cases hc
      | cons next rest =>
          rw [List.cons_append, at?_cons, entries_put]
          by_cases heq : next = first
          · subst heq
            obtain ⟨c', hc', hrest⟩ := Option.bind_eq_some_iff.mp hfile
            obtain rfl := Option.some.inj (hc.symm.trans hc')
            rw [child?_setEntry_self, hc, Option.getD_some, Option.bind_some]
            refine ih hrest habove hfree ?_
            rintro rfl
            exact hne rfl
          · rw [child?_setEntry_of_ne heq]
            exact hfile

/-! ### The files in a node -/

mutual

/-- A node as a system keeps it: all names are such that entries can have, and no two entries of one
directory have the same. -/
def Orderly : FileNode → Prop
  | file _ => True
  | dir es => (es.map Prod.fst).Nodup ∧ OrderlyIn es

/-- Entries as a system keeps them, apart from whether their names are different. -/
def OrderlyIn : List (String × FileNode) → Prop
  | [] => True
  | (name, node) :: rest => FileTree.Plain name ∧ Orderly node ∧ OrderlyIn rest

end

theorem OrderlyIn.of_child? (h : OrderlyIn es) (hchild : child? es name = some node) :
    node.Orderly := by
  induction es with
  | nil => cases hchild
  | cons e es ih =>
      obtain ⟨other, inner⟩ := e
      by_cases heq : other = name
      · rw [child?, List.find?_cons_of_pos (by simpa using heq)] at hchild
        obtain rfl := Option.some.inj hchild
        exact h.2.1
      · rw [child?, List.find?_cons_of_neg (by simpa using heq)] at hchild
        exact ih h.2.2 hchild

/-- What lies in an orderly node is orderly. -/
theorem Orderly.of_at? (names : List String) : ∀ {node found : FileNode},
    node.Orderly → node.at? names = some found → found.Orderly := by
  induction names with
  | nil =>
      intro node found h hat
      exact Option.some.inj hat ▸ h
  | cons name rest ih =>
      intro node found h hat
      obtain ⟨c, hc, hrest⟩ := Option.bind_eq_some_iff.mp hat
      cases node with
      | file content => cases hc
      | dir es => exact ih (h.2.of_child? hc) hrest

mutual

theorem plain_of_mem_files : ∀ {node : FileNode}, node.Orderly → ∀ f ∈ node.files,
    ∀ name ∈ f.1, FileTree.Plain name
  | file content, _, f, hf, name, hname => by
      rw [files, List.mem_singleton] at hf
      subst hf
      cases hname
  | dir es, h, f, hf, name, hname => by
      rw [files] at hf
      exact plain_of_mem_filesIn h.2 f hf name hname

theorem plain_of_mem_filesIn : ∀ {es : List (String × FileNode)}, OrderlyIn es →
    ∀ f ∈ filesIn es, ∀ name ∈ f.1, FileTree.Plain name
  | [], _, f, hf, name, hname => by
      rw [filesIn] at hf
      cases hf
  | (first, node) :: rest, h, f, hf, name, hname => by
      rw [filesIn, List.mem_append] at hf
      rcases hf with hf | hf
      · obtain ⟨g, hg, rfl⟩ := List.mem_map.mp hf
        rcases List.mem_cons.mp hname with rfl | hname
        · exact h.1
        · exact plain_of_mem_files h.2.1 g hg name hname
      · exact plain_of_mem_filesIn h.2.2 f hf name hname

end

/-- The first of the names that lead to a file is that of an entry. -/
theorem exists_cons_of_mem_filesIn {f : List String × Bytes} (h : f ∈ filesIn es) :
    ∃ name ∈ es.map Prod.fst, ∃ rest, f.1 = name :: rest := by
  induction es with
  | nil =>
      rw [filesIn] at h
      cases h
  | cons e es ih =>
      obtain ⟨first, node⟩ := e
      rw [filesIn, List.mem_append] at h
      rcases h with h | h
      · obtain ⟨g, -, rfl⟩ := List.mem_map.mp h
        exact ⟨first, List.mem_cons_self, g.1, rfl⟩
      · obtain ⟨name, hname, rest, heq⟩ := ih h
        exact ⟨name, List.mem_cons_of_mem _ hname, rest, heq⟩

mutual

/-- The names that lead to the files in a node are different. -/
theorem nodup_files : ∀ {node : FileNode}, node.Orderly → (node.files.map Prod.fst).Nodup
  | file content, _ => by
      rw [files]
      exact List.nodup_singleton _
  | dir es, h => by
      rw [files]
      exact nodup_filesIn h.1 h.2

theorem nodup_filesIn : ∀ {es : List (String × FileNode)}, (es.map Prod.fst).Nodup →
    OrderlyIn es → ((filesIn es).map Prod.fst).Nodup
  | [], _, _ => by
      rw [filesIn]
      exact List.nodup_nil
  | (first, node) :: rest, hnames, h => by
      obtain ⟨hfirst, hrest⟩ := List.nodup_cons.mp hnames
      rw [filesIn, List.map_append, List.map_map]
      have hinner : (node.files.map (Prod.fst ∘ fun f => (first :: f.1, f.2))).Nodup := by
        have hcons := List.Nodup.map (List.cons_injective (a := first)) (nodup_files h.2.1)
        rwa [List.map_map] at hcons
      refine List.nodup_append.mpr ⟨hinner, nodup_filesIn hrest h.2.2, ?_⟩
      rintro _ hleft _ hright rfl
      obtain ⟨f, -, rfl⟩ := List.mem_map.mp hleft
      obtain ⟨g, hg, heq⟩ := List.mem_map.mp hright
      obtain ⟨name, hname, more, hcons⟩ := exists_cons_of_mem_filesIn hg
      obtain ⟨rfl, -⟩ := List.cons.inj (hcons.symm.trans heq)
      exact hfirst hname

end

end FileNode

/-! ## Places -/

namespace Location

/-- The place that a part of a path leads to. -/
def stepped (here : Location) (part : List Char) : Location :=
  if Path.isEmptyPart part then here
  else if part = ['.', '.'] then here.parent
  else here.child (String.ofList part)

/-- The place that the parts of a path lead to. -/
def follow (here : Location) (parts : List (List Char)) : Location := parts.foldl stepped here

theorem follow_append_singleton (here : Location) (parts : List (List Char)) (part : List Char) :
    here.follow (parts ++ [part]) = (here.follow parts).stepped part := by
  rw [follow, List.foldl_append]
  rfl

theorem stepped_plain {here : Location} {name : String} (h : FileTree.Plain name) :
    here.stepped name.toList = here.child name := by
  rw [stepped, if_neg (by rw [h.meant]; exact Bool.false_ne_true), if_neg h.forward,
    String.ofList_toList]

theorem child_inj {l l' : Location} {name name' : String} :
    l.child name = l'.child name' ↔ l = l' ∧ name = name' := by
  obtain ⟨base, names⟩ := l
  obtain ⟨base', names'⟩ := l'
  simp only [child, mk.injEq]
  constructor
  · rintro ⟨rfl, h⟩
    obtain ⟨rfl, hname⟩ := List.append_inj' h rfl
    exact ⟨⟨rfl, rfl⟩, List.singleton_inj.mp hname⟩
  · rintro ⟨⟨rfl, rfl⟩, rfl⟩
    exact ⟨rfl, rfl⟩

end Location

namespace FileTree

variable {t t' : FileTree} {here there : Location} {dir name path other : String}
  {content data : Bytes} {es : List (String × FileNode)}

theorem step_eq_stepped {part : List Char} (h : t.step here part = .ok there) :
    there = here.stepped part := by
  obtain ⟨es, -, ⟨hempty, rfl⟩ | ⟨hmeant, rfl, rfl⟩ | ⟨hmeant, hback, -, -, rfl⟩⟩ := step_eq_ok h
  · rw [Location.stepped, if_pos hempty]
  · rfl
  · rw [Location.stepped, hmeant, if_neg hback]
    rfl

/-- Where the parts of a path lead is a matter of the parts. -/
theorem walk_eq_follow (parts : List (List Char)) : ∀ {here : Location},
    t.walk here parts = .ok there → there = here.follow parts := by
  induction parts with
  | nil => exact fun h => (Except.ok.inj h).symm
  | cons part rest ih =>
      intro here h
      obtain ⟨mid, hstep, hrest⟩ := except_bind_eq_ok.mp h
      rw [ih hrest, step_eq_stepped hstep]
      rfl

/-- The place that a path leads to. -/
def place (path : String) : Location := (route path.toList).1.follow (route path.toList).2

theorem at?_place {node : FileNode} (h : t.locate path = .ok node) :
    t.at? (place path) = some node := by
  obtain ⟨origin, parts, there, hstart, hwalk, hat⟩ := locate_eq_ok.mp h
  obtain ⟨-, -, -, hroute⟩ := start_eq_ok.mp hstart
  rw [place, ← hroute, ← walk_eq_follow parts hwalk, hat]

/-- The place of an entry is that of its directory with the name behind it. -/
theorem place_join (hdir : dir ≠ "") (hname : Plain name) :
    place (Path.join dir name) = (place dir).child name := by
  have hcs : dir.toList ≠ [] := by
    intro hnil
    exact hdir (String.toList_eq_nil_iff.mp hnil)
  rw [place, place]
  rcases toList_join hdir hname with ⟨cs, hlast, heq⟩ | heq
  · obtain ⟨origin, parts, hroute, -, hslash⟩ := route_append_cons hname.noSlash cs
    rw [heq, hroute, hlast, hslash]
    dsimp only
    rw [Location.follow_append_singleton, Location.follow_append_singleton,
      Location.stepped_plain hname]
    rfl
  · obtain ⟨origin, parts, hroute, hplain, -⟩ := route_append_cons hname.noSlash dir.toList
    rw [heq, hroute, hplain hcs]
    dsimp only
    rw [Location.follow_append_singleton, Location.stepped_plain hname]

theorem join_ne_empty (hdir : dir ≠ "") (hname : Plain name) : Path.join dir name ≠ "" := by
  intro hempty
  rcases toList_join hdir hname with ⟨cs, -, heq⟩ | heq
  · simp [hempty] at heq
  · simp [hempty] at heq

theorem foldl_join_ne_empty (names : List String) : ∀ {dir : String}, dir ≠ "" →
    (∀ name ∈ names, Plain name) → names.foldl Path.join dir ≠ "" := by
  induction names with
  | nil => exact fun hdir _ => hdir
  | cons name rest ih =>
      intro dir hdir hnames
      obtain ⟨hname, hrest⟩ := List.forall_mem_cons.mp hnames
      exact ih (join_ne_empty hdir hname) hrest

/-- The place of what lies below a directory is that of the directory with the names behind it. -/
theorem place_foldl_join (names : List String) : ∀ {dir : String}, dir ≠ "" →
    (∀ name ∈ names, Plain name) →
      place (names.foldl Path.join dir) = ⟨(place dir).base, (place dir).names ++ names⟩ := by
  induction names with
  | nil =>
      intro dir _ _
      rw [List.append_nil]
      rfl
  | cons name rest ih =>
      intro dir hdir hnames
      obtain ⟨hname, hrest⟩ := List.forall_mem_cons.mp hnames
      rw [List.foldl_cons, ih (join_ne_empty hdir hname) hrest, place_join hdir hname,
        Location.child, List.append_assoc]
      rfl

/-- Different names lead from a directory to different places. -/
theorem place_foldl_join_inj {names names' : List String} (hdir : dir ≠ "")
    (hnames : ∀ name ∈ names, Plain name) (hnames' : ∀ name ∈ names', Plain name)
    (h : place (names.foldl Path.join dir) = place (names'.foldl Path.join dir)) :
    names = names' := by
  rw [place_foldl_join names hdir hnames, place_foldl_join names' hdir hnames'] at h
  exact List.append_cancel_left (Location.mk.inj h).2

/-! ## Reading and writing apart -/

theorem at?_put_of_ne {l : Location} (hfile : t.at? l = some (.file content))
    (hdir : t.at? here = some (.dir es)) (hfree : ∀ es', FileNode.child? es name ≠ some (.dir es'))
    (hne : l ≠ here.child name) (new : FileNode) :
    (t.put (here.child name) new).at? l = some (.file content) := by
  by_cases hbase : l.base = here.base
  · have hnames : l.names ≠ here.names ++ [name] := by
      intro heq
      exact hne (by rw [Location.child, ← hbase, ← heq])
    rw [at?] at hfile hdir ⊢
    rw [hbase] at hfile ⊢
    have hself := node_put_self t (here.child name) new
    rw [Location.child] at hself ⊢
    rw [hself]
    exact FileNode.at?_put_of_ne _ hfile hdir hfree hnames
  · have hother : l.base ≠ (here.child name).base := hbase
    rw [at?, node_put_of_ne hother]
    exact hfile

/-- The place that is written to is that of the path. -/
theorem Leads.place_eq {origin : Location} {parts : List (List Char)} {name : List Char}
    (h : Leads t path origin here parts name es) :
    place path = here.child (String.ofList name) := by
  obtain ⟨-, -, -, hroute⟩ := start_eq_ok.mp h.start
  rw [place, ← hroute]
  dsimp only
  rw [Location.follow_append_singleton, ← walk_eq_follow parts h.walk, Location.stepped, h.named.1,
    if_neg h.named.2]
  rfl

/-- A path leads to a file as before when one was written at another place. -/
theorem locate_put_of_ne {l : Location} {name : String}
    (hlocate : t.locate other = .ok (.file data))
    (hdir : t.at? l = some (.dir es)) (hfree : ∀ es', FileNode.child? es name ≠ some (.dir es'))
    (hne : place other ≠ l.child name) (content : Bytes) :
    (t.put (l.child name) (.file content)).locate other = .ok (.file data) := by
  have hnew : ∀ es', t.at? (l.child name) ≠ some (.dir es') := by
    rw [at?_child hdir]
    exact hfree
  have hat := at?_put_of_ne (at?_place hlocate) hdir hfree hne (.file content)
  obtain ⟨origin, parts, there, hstart, hwalk, -⟩ := locate_eq_ok.mp hlocate
  obtain ⟨-, -, -, hroute⟩ := start_eq_ok.mp hstart
  rw [place, ← hroute, ← walk_eq_follow parts hwalk] at hat
  exact locate_eq_ok.mpr
    ⟨origin, parts, there, hstart, walk_put hnew (.file content) parts hwalk, hat⟩

/-- A file is read as before when one was written at another place. -/
theorem read_write_of_ne (hread : t.read other = .ok data) (hwrite : t.write path content = .ok t')
    (hne : place other ≠ place path) : t'.read other = .ok data := by
  obtain ⟨node, hlocate, hnode⟩ := except_bind_eq_ok.mp hread
  split at hnode
  · obtain rfl := Except.ok.inj hnode
    obtain ⟨origin, here, parts, name, es, hleads, rfl⟩ := write_eq_ok hwrite
    rw [hleads.place_eq] at hne
    rw [read, locate_put_of_ne hlocate hleads.dir hleads.free hne]
    rfl
  · cases hnode

/-! ## The files below a directory -/

/-- A tree as a system keeps it. -/
structure Orderly (t : FileTree) : Prop where
  root : t.root.Orderly
  outside : ∀ e ∈ t.outside, e.2.Orderly

theorem Orderly.node (h : t.Orderly) (base : Base) : (t.node base).Orderly := by
  have hfound (base : Base) : (((t.outside.find? fun e => e.1 = base).map Prod.snd).getD
      (.dir [])).Orderly := by
    cases hfind : t.outside.find? fun e => e.1 = base with
    | none => exact ⟨List.nodup_nil, trivial⟩
    | some e => exact h.outside e (List.mem_of_find?_eq_some hfind)
  cases base with
  | working => exact h.root
  | above n => exact hfound _
  | top => exact hfound _

theorem Orderly.of_locate {node : FileNode} (h : t.Orderly) (hlocate : t.locate path = .ok node) :
    node.Orderly :=
  FileNode.Orderly.of_at? _ (h.node _) (at?_place hlocate)

theorem ne_empty_of_locate {node : FileNode} (h : t.locate path = .ok node) : path ≠ "" := by
  obtain ⟨origin, parts, here, hstart, -, -⟩ := locate_eq_ok.mp h
  exact (start_eq_ok.mp hstart).1

/-- The files below a directory are given by different paths. -/
theorem Orderly.nodup_below (h : t.Orderly) (dir : String) : (t.below dir).Nodup := by
  rw [below]
  split
  · next node hlocate =>
      have hnode := h.of_locate hlocate
      have hmap : (node.files.map fun f => f.1.foldl Path.join dir)
          = (node.files.map Prod.fst).map fun names => names.foldl Path.join dir := by
        rw [List.map_map]
        rfl
      rw [hmap]
      refine List.Nodup.map_on ?_ (FileNode.nodup_files hnode)
      intro names hnames names' hnames' heq
      obtain ⟨f, hf, rfl⟩ := List.mem_map.mp hnames
      obtain ⟨g, hg, rfl⟩ := List.mem_map.mp hnames'
      exact place_foldl_join_inj (ne_empty_of_locate hlocate)
        (FileNode.plain_of_mem_files hnode f hf) (FileNode.plain_of_mem_files hnode g hg)
        (congrArg place heq)
  · exact List.nodup_nil

/-- A file below a directory is given by the names that lead to it.  If there are none, the path of
the directory is that of the file, and there is no other one. -/
theorem Orderly.exists_names (h : t.Orderly) (hmem : path ∈ t.below dir) :
    dir ≠ "" ∧ ∃ names, (∀ name ∈ names, Plain name) ∧ path = names.foldl Path.join dir ∧
      (names = [] → t.below dir = [dir]) := by
  rw [below] at hmem ⊢
  split at hmem
  · next node hlocate =>
      obtain ⟨f, hf, rfl⟩ := List.mem_map.mp hmem
      refine ⟨ne_empty_of_locate hlocate, f.1,
        FileNode.plain_of_mem_files (h.of_locate hlocate) f hf, rfl, fun hnil => ?_⟩
      cases node with
      | file content => rfl
      | dir es =>
          obtain ⟨first, -, rest, hcons⟩ := FileNode.exists_cons_of_mem_filesIn hf
          cases hnil.symm.trans hcons
  · cases hmem

end FileTree

end Nss
