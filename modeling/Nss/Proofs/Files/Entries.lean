/-
# Paths of entries

The path of an entry is that of its directory with the name behind it.  It leads to the entry, and to
nothing if there is none: the parts of the path are those of the directory, apart from an empty one
at the end, and the name (`start_join`).

    dir        a / b            a / b / ""
    entry      a / b / name     a / b / name
-/
import Nss.Proofs.Files.Writing

namespace Nss

open Steps

/-! ## Pieces of a text -/

namespace Text

variable {separator : Char} {cs : List Char}

theorem pieces_ne_nil (cs : List Char) : pieces separator cs ≠ [] := by
  cases cs with
  | nil => nofun
  | cons c cs =>
      rw [pieces]
      split
      · nofun
      · split
        · nofun
        · nofun

theorem pieces_of_not_mem (h : separator ∉ cs) : pieces separator cs = [cs] := by
  induction cs with
  | nil => rfl
  | cons c cs ih =>
      obtain ⟨hc, hcs⟩ := List.ne_and_not_mem_of_not_mem_cons h
      rw [pieces, if_neg hc.symm, ih hcs]

/-- The pieces before a separator, and those behind it. -/
theorem pieces_append_cons (bs cs : List Char) :
    pieces separator (bs ++ separator :: cs) = pieces separator bs ++ pieces separator cs := by
  induction bs with
  | nil => simp [pieces]
  | cons b bs ih =>
      rw [List.cons_append, pieces, pieces]
      split
      · rw [ih, List.cons_append]
      · rw [ih]
        cases hbs : pieces separator bs with
        | nil => exact absurd hbs (pieces_ne_nil bs)
        | cons piece rest => rfl

/-- The pieces of a text and a word behind it: the word is a piece of its own if the text ends with a
separator, or has one between it and the word. -/
theorem pieces_word (bs : List Char) {word : List Char} (hword : separator ∉ word) :
    pieces separator (bs ++ separator :: word) = pieces separator bs ++ [word] := by
  rw [pieces_append_cons, pieces_of_not_mem hword]

end Text

namespace FileTree

variable {t : FileTree} {dir name : String} {origin here : Location} {parts : List (List Char)}
  {es : List (String × FileNode)} {node : FileNode}

/-! ## The parts of a path -/

/-- Where a text starts that is taken for a path, and its parts. -/
def route : List Char → Location × List (List Char)
  | [] => (⟨.working, []⟩, [])
  | c :: cs =>
    if c = '/' then (⟨.top, []⟩, Text.pieces '/' cs) else (⟨.working, []⟩, Text.pieces '/' (c :: cs))

/-- A path is followed if it is neither empty nor too long and has no byte zero. -/
theorem start_eq_ok {path : String} {there : Location × List (List Char)} :
    start path = .ok there ↔ path ≠ "" ∧ '\x00' ∉ path.toList ∧
      utf8Width path.toList ≤ maxPath ∧ there = route path.toList := by
  have hempty : path = "" ↔ path.toList = [] := String.toList_eq_nil_iff.symm
  rw [start, ne_eq, hempty]
  generalize path.toList = cs
  by_cases hnul : '\x00' ∈ cs
  · simp [hnul]
  · by_cases hlong : maxPath < utf8Width cs
    · have hnot : ¬ utf8Width cs ≤ maxPath := Nat.not_le_of_lt hlong
      simp [hnul, hlong, hnot]
    · have hshort := Nat.le_of_not_lt hlong
      simp only [hnul, hlong, hshort, if_false, not_false_eq_true, true_and]
      split
      · simp
      · simp [route, eq_comm]
      · next hsome hslash =>
          obtain ⟨c, rest, rfl⟩ := List.exists_cons_of_ne_nil hsome
          have hc : c ≠ '/' := by
            rintro rfl
            exact hslash rest rfl
          simp [route, hc, eq_comm]

/-- The parts of a path to which a word is added behind a slash. -/
theorem route_append_cons {word : List Char} (hword : '/' ∉ word) (cs : List Char) :
    ∃ origin parts, route (cs ++ '/' :: word) = (origin, parts ++ [word]) ∧
      (cs ≠ [] → route cs = (origin, parts)) ∧
      route (cs ++ ['/']) = (origin, parts ++ [[]]) := by
  cases cs with
  | nil =>
      refine ⟨⟨.top, []⟩, [], ?_, nofun, rfl⟩
      simp [route, Text.pieces_of_not_mem hword]
  | cons c cs =>
      have hlast (bs : List Char) : Text.pieces '/' (bs ++ ['/']) = Text.pieces '/' bs ++ [[]] :=
        Text.pieces_append_cons bs []
      by_cases hc : c = '/'
      · refine ⟨⟨.top, []⟩, Text.pieces '/' cs, ?_, fun _ => ?_, ?_⟩
        · simp [route, hc, Text.pieces_word cs hword]
        · simp [route, hc]
        · simp [route, hc, hlast]
      · refine ⟨⟨.working, []⟩, Text.pieces '/' (c :: cs), ?_, fun _ => ?_, ?_⟩
        · rw [List.cons_append, route, if_neg hc, ← List.cons_append, Text.pieces_word _ hword]
        · rw [route, if_neg hc]
        · rw [List.cons_append, route, if_neg hc, ← List.cons_append, hlast]

/-! ## The path of an entry -/

/-- A name that an entry of a directory can have. -/
structure Plain (name : String) : Prop where
  noSlash : '/' ∉ name.toList
  meant : Path.isEmptyPart name.toList = false
  forward : name.toList ≠ ['.', '.']

/-- A path that the system follows: it has no byte zero, and neither it nor the name at its end is
too long. -/
structure Fits (dir name : String) : Prop where
  noNul : '\x00' ∉ (Path.join dir name).toList
  short : utf8Width (Path.join dir name).toList ≤ maxPath
  shortName : utf8Width name.toList ≤ maxName

/-- The path of an entry goes on from that of its directory, or from that without a slash at its
end. -/
theorem toList_join (hdir : dir ≠ "") (hname : Plain name) :
    (∃ cs, dir.toList = cs ++ ['/'] ∧ (Path.join dir name).toList = cs ++ '/' :: name.toList) ∨
      (Path.join dir name).toList = dir.toList ++ '/' :: name.toList := by
  have hrelative : ¬ name.toList.head? = some '/' := by
    intro hhead
    exact hname.noSlash (List.mem_of_head? hhead)
  rw [Path.join, if_neg hrelative]
  by_cases hlast : dir.toList.getLast? = some '/'
  · obtain ⟨cs, hcs⟩ := List.getLast?_eq_some_iff.mp hlast
    refine .inl ⟨cs, hcs, ?_⟩
    rw [if_pos (.inr hlast), String.toList_append, hcs]
    simp
  · refine .inr ?_
    rw [if_neg (not_or.mpr ⟨hdir, hlast⟩)]
    simp [String.toList_append]

/-- The path of an entry starts where that of its directory does. -/
theorem start_join (hdir : dir ≠ "") (hname : Plain name)
    (hnul : '\x00' ∉ (Path.join dir name).toList)
    (hshort : utf8Width (Path.join dir name).toList ≤ maxPath) :
    ∃ origin parts, start (Path.join dir name) = .ok (origin, parts ++ [name.toList]) ∧
      (start dir = .ok (origin, parts) ∨ start dir = .ok (origin, parts ++ [[]])) := by
  have hcs : dir.toList ≠ [] := by
    intro hnil
    exact hdir (String.toList_eq_nil_iff.mp hnil)
  have hjoin : Path.join dir name ≠ "" := by
    intro hempty
    rcases toList_join hdir hname with ⟨cs, -, heq⟩ | heq
    · simp [hempty] at heq
    · simp [hempty] at heq
  rcases toList_join hdir hname with ⟨cs, hlast, heq⟩ | heq
  · obtain ⟨origin, parts, hroute, -, hslash⟩ := route_append_cons hname.noSlash cs
    refine ⟨origin, parts, ?_, .inr ?_⟩
    · exact start_eq_ok.mpr ⟨hjoin, hnul, hshort, by rw [heq, hroute]⟩
    · rw [heq] at hnul hshort
      refine start_eq_ok.mpr ⟨hdir, ?_, ?_, by rw [hlast, hslash]⟩
      · rw [hlast]
        simp only [List.mem_append, List.mem_cons] at hnul ⊢
        tauto
      · rw [hlast]
        simp only [utf8Width_append, utf8Width_cons, utf8Width_nil] at hshort ⊢
        omega
  · obtain ⟨origin, parts, hroute, hplain, -⟩ := route_append_cons hname.noSlash dir.toList
    refine ⟨origin, parts, ?_, .inl ?_⟩
    · exact start_eq_ok.mpr ⟨hjoin, hnul, hshort, by rw [heq, hroute]⟩
    · rw [heq] at hnul hshort
      refine start_eq_ok.mpr ⟨hdir, ?_, ?_, (hplain hcs).symm⟩
      · exact fun hmem => hnul (List.mem_append_left _ hmem)
      · rw [utf8Width_append] at hshort
        omega

/-! ## Where it leads -/

/-- The entries of the directory that a path leads to, none if there is no such directory. -/
def held (t : FileTree) (dir : String) : List (String × FileNode) := (t.entries? dir).getD []

/-- The entries of a directory can be opened by their paths.  An empty path leads to no directory, and
a directory that is not there has no entries. -/
structure Searchable (t : FileTree) (dir : String) : Prop where
  named : dir ≠ ""
  fits : ∀ e ∈ t.held dir, Fits dir e.1

theorem entries?_eq_some {path : String} :
    t.entries? path = some es ↔ t.locate path = .ok (.dir es) := by
  rw [entries?]
  split
  · next entries heq =>
      rw [heq]
      constructor
      · intro h
        rw [Option.some.inj h]
      · intro h
        cases h
        rfl
  · next hnone =>
      constructor
      · nofun
      · intro h
        exact absurd h (hnone es)

theorem locate_eq_ok {path : String} :
    t.locate path = .ok node ↔ ∃ origin parts here, start path = .ok (origin, parts) ∧
      t.walk origin parts = .ok here ∧ t.at? here = some node := by
  rw [locate]
  constructor
  · intro h
    obtain ⟨⟨origin, parts⟩, hstart, h⟩ := except_bind_eq_ok.mp h
    obtain ⟨here, hwalk, h⟩ := except_bind_eq_ok.mp h
    split at h
    · next found hfound => exact ⟨origin, parts, here, hstart, hwalk, Except.ok.inj h ▸ hfound⟩
    · cases h
  · rintro ⟨origin, parts, here, hstart, hwalk, hat⟩
    refine except_bind_eq_ok.mpr ⟨_, hstart, except_bind_eq_ok.mpr ⟨here, hwalk, ?_⟩⟩
    rw [hat]
    rfl

/-- A path that ends with an empty part leads to the same directory without it. -/
theorem walk_empty_eq_ok :
    t.walk origin (parts ++ [[]]) = .ok here ↔
      t.walk origin parts = .ok here ∧ ∃ es, t.at? here = some (.dir es) := by
  rw [walk_append, except_bind_eq_ok]
  constructor
  · rintro ⟨mid, hwalk, hlast⟩
    obtain ⟨there, hstep, hend⟩ := except_bind_eq_ok.mp hlast
    obtain rfl := Except.ok.inj hend
    obtain ⟨es, hdir, ⟨-, rfl⟩ | ⟨hnot, -⟩ | ⟨hnot, -⟩⟩ := step_eq_ok hstep
    · exact ⟨hwalk, es, hdir⟩
    · cases hnot
    · cases hnot
  · rintro ⟨hwalk, es, hdir⟩
    refine ⟨here, hwalk, except_bind_eq_ok.mpr ⟨here, ?_, rfl⟩⟩
    rw [step, hdir]
    rfl

/-- A path that ends with a name leads to an entry of a directory. -/
theorem walk_name_eq_ok (hname : Plain name) :
    (∃ there, t.walk origin (parts ++ [name.toList]) = .ok there ∧ t.at? there = some node) ↔
      utf8Width name.toList ≤ maxName ∧ ∃ here es, t.walk origin parts = .ok here ∧
        t.at? here = some (.dir es) ∧ FileNode.child? es name = some node := by
  constructor
  · rintro ⟨there, hwalk, hat⟩
    rw [walk_append] at hwalk
    obtain ⟨mid, hbefore, hlast⟩ := except_bind_eq_ok.mp hwalk
    obtain ⟨there', hstep, hend⟩ := except_bind_eq_ok.mp hlast
    obtain rfl := Except.ok.inj hend
    obtain ⟨es, hdir, hcases⟩ := step_eq_ok hstep
    rcases hcases with ⟨hempty, -⟩ | ⟨-, hback, -⟩ | ⟨-, -, hshort, -, rfl⟩
    · rw [hname.meant] at hempty
      cases hempty
    · exact absurd hback hname.forward
    · rw [at?_child hdir, String.ofList_toList] at hat
      exact ⟨Nat.le_of_not_lt hshort, mid, es, hbefore, hdir, hat⟩
  · rintro ⟨hshort, here, es, hwalk, hdir, hchild⟩
    have hstep : t.step here name.toList = .ok (here.child name) := by
      rw [step, hdir]
      simp [hname.meant, hname.forward, Nat.not_lt_of_le hshort, hchild]
    refine ⟨here.child name, ?_, ?_⟩
    · rw [walk_append]
      exact except_bind_eq_ok.mpr ⟨here, hwalk, except_bind_eq_ok.mpr ⟨_, hstep, rfl⟩⟩
    · rw [at?_child hdir, hchild]

/-- Where a path leads that starts at some place and goes on with some parts. -/
theorem locate_of_start {path : String} (hstart : start path = .ok (origin, parts)) :
    t.locate path = .ok node ↔
      ∃ there, t.walk origin parts = .ok there ∧ t.at? there = some node := by
  rw [locate_eq_ok]
  simp only [hstart, Except.ok.injEq, Prod.mk.injEq]
  constructor
  · rintro ⟨_, _, there, ⟨rfl, rfl⟩, hwalk, hat⟩
    exact ⟨there, hwalk, hat⟩
  · rintro ⟨there, hwalk, hat⟩
    exact ⟨_, _, there, ⟨rfl, rfl⟩, hwalk, hat⟩

/-- A path leads to an entry if it can be followed and the directory holds such an entry. -/
theorem locate_join_eq_ok (hdir : dir ≠ "") (hname : Plain name) :
    t.locate (Path.join dir name) = .ok node ↔
      Fits dir name ∧ FileNode.child? (t.held dir) name = some node := by
  by_cases hfits : '\x00' ∉ (Path.join dir name).toList ∧
      utf8Width (Path.join dir name).toList ≤ maxPath
  · obtain ⟨hnul, hshort⟩ := hfits
    obtain ⟨origin, parts, hjoin, hstart⟩ := start_join hdir hname hnul hshort
    have hentries (es : List (String × FileNode)) : t.entries? dir = some es ↔
        ∃ here, t.walk origin parts = .ok here ∧ t.at? here = some (.dir es) := by
      rw [entries?_eq_some]
      rcases hstart with hstart | hstart
      · exact locate_of_start hstart
      · rw [locate_of_start hstart]
        constructor
        · rintro ⟨here, hwalk, hat⟩
          exact ⟨here, (walk_empty_eq_ok.mp hwalk).1, hat⟩
        · rintro ⟨here, hwalk, hat⟩
          exact ⟨here, walk_empty_eq_ok.mpr ⟨hwalk, es, hat⟩, hat⟩
    rw [locate_of_start hjoin, walk_name_eq_ok hname]
    constructor
    · rintro ⟨hshortName, here, es, hwalk, hat, hchild⟩
      refine ⟨⟨hnul, hshort, hshortName⟩, ?_⟩
      rw [held, (hentries es).mpr ⟨here, hwalk, hat⟩]
      exact hchild
    · rintro ⟨hfits, hchild⟩
      refine ⟨hfits.shortName, ?_⟩
      rw [held] at hchild
      cases hes : t.entries? dir with
      | none =>
          rw [hes] at hchild
          cases hchild
      | some es =>
          rw [hes] at hchild
          obtain ⟨here, hwalk, hat⟩ := (hentries es).mp hes
          exact ⟨here, es, hwalk, hat, hchild⟩
  · constructor
    · intro h
      obtain ⟨origin, parts, -, hstart, -⟩ := locate_eq_ok.mp h
      obtain ⟨-, hnul, hshort, -⟩ := start_eq_ok.mp hstart
      exact absurd ⟨hnul, hshort⟩ hfits
    · rintro ⟨⟨hnul, hshort, -⟩, -⟩
      exact absurd ⟨hnul, hshort⟩ hfits

/-- A name by itself leads to an entry of the working directory. -/
theorem held_of_locate_name (hname : Plain name) (hempty : name ≠ "")
    (h : t.locate name = .ok node) : FileNode.child? (t.held ".") name = some node := by
  obtain ⟨origin, parts, -, hstart, -⟩ := locate_eq_ok.mp h
  obtain ⟨-, -, -, hroute⟩ := start_eq_ok.mp hstart
  have hparts : route name.toList = (⟨.working, []⟩, [] ++ [name.toList]) := by
    cases hcs : name.toList with
    | nil => exact absurd (String.toList_eq_nil_iff.mp hcs) hempty
    | cons c cs =>
        have hnoSlash := hname.noSlash
        rw [hcs] at hnoSlash
        rw [route, if_neg (List.ne_and_not_mem_of_not_mem_cons hnoSlash).1.symm,
          Text.pieces_of_not_mem hnoSlash]
        rfl
  obtain ⟨rfl, rfl⟩ := Prod.mk.inj (hroute.trans hparts)
  obtain ⟨-, here, es, hwalk, hat, hchild⟩ :=
    (walk_name_eq_ok hname).mp ((locate_of_start hstart).mp h)
  obtain rfl := Except.ok.inj hwalk
  have hdot : t.entries? "." = some es := by
    refine entries?_eq_some.mpr (locate_eq_ok.mpr ⟨⟨.working, []⟩, [['.']], ⟨.working, []⟩, rfl, ?_, hat⟩)
    refine except_bind_eq_ok.mpr ⟨⟨.working, []⟩, ?_, rfl⟩
    rw [step, hat]
    rfl
  rw [held, hdot]
  exact hchild

end FileTree

end Nss
