/-
# Sources that are searched in directories

A search goes through lists of entries: in each of them it looks for the file of a name, and if there
is none for the first entry whose name differs only in the case of letters from A to Z, be it a file
or not.  `load_ofDirs` says that a loader does just this with the entries of its directories.

    directive    dir\Lib.nss     names   Lib
    key          lib             in small letters, those of all alphabets
    name         lib.nss         compared with entries by the letters from A to Z

So a file is found whose name has no other capital letters, unless a directory of that name is found
before (`load_directive`); `directive_overlooked` has a file of each kind that is not found.
-/
import Mathlib.Data.List.TakeWhile
import Nss.Proofs.Files.Entries
import Nss.Proofs.Include.Expansion

namespace Nss

/-! ## The keys of directives -/

namespace Text

theorem not_mem_of_splitLast? {p : Char → Bool} {cs before after : List Char}
    (h : splitLast? p cs = some (before, after)) : ∀ c ∈ after, p c = false := by
  rw [splitLast?] at h
  split at h
  · cases h
  · obtain ⟨-, rfl⟩ := Prod.mk.inj (Option.some.inj h)
    intro c hc
    have hall := List.mem_takeWhile_imp (List.mem_reverse.mp hc)
    simpa using hall

theorem not_mem_of_splitLast?_eq_none {p : Char → Bool} {cs : List Char}
    (h : splitLast? p cs = none) : ∀ c ∈ cs, p c = false := by
  rw [splitLast?] at h
  split at h
  · next hlength =>
      rw [List.length_reverse] at hlength
      have hwhole : cs.reverse.takeWhile (fun c => !p c) = cs.reverse := by
        refine (List.takeWhile_prefix _).eq_of_length ?_
        rw [hlength, List.length_reverse]
      intro c hc
      have hc' : c ∈ cs.reverse.takeWhile (fun c => !p c) := by
        rw [hwhole]
        exact List.mem_reverse.mpr hc
      simpa using List.mem_takeWhile_imp hc'
  · cases h

/-- What stands before the last character of a kind is a part of the text. -/
theorem mem_of_splitLast? {p : Char → Bool} {cs before after : List Char}
    (h : splitLast? p cs = some (before, after)) : ∀ c ∈ before, c ∈ cs := by
  rw [splitLast?] at h
  split at h
  · cases h
  · obtain ⟨rfl, -⟩ := Prod.mk.inj (Option.some.inj h)
    intro c hc
    exact List.mem_of_mem_take hc

end Text

namespace IncludeKey

theorem mem_of_mem_dropExtension {name : List Char} {c : Char} (h : c ∈ dropExtension name) :
    c ∈ name := by
  rw [dropExtension] at h
  split at h
  · exact h
  · exact h
  · next stem extension _ hsplit => exact Text.mem_of_splitLast? hsplit c h

/-- The key of a path has none of the characters that end a directory. -/
theorem not_isSeparator_of_mem_ofPath {path : String} {c : Char} (h : c ∈ (ofPath path).toList) :
    isSeparator c = false := by
  rw [ofPath, String.toList_ofList] at h
  have hname := mem_of_mem_dropExtension h
  split at hname
  · next hsplit => exact Text.not_mem_of_splitLast? hsplit c hname
  · next hsplit => exact Text.not_mem_of_splitLast?_eq_none hsplit c hname

end IncludeKey

namespace Loader

open FileTree

variable {t : FileTree} {dir key name s : String} {dirs : List String}
  {es : List (String × FileNode)} {e : String × FileNode}
  {lists : List (List (String × FileNode))}

theorem toList_fileName (key : String) : (fileName key).toList = key.toList ++ ".nss".toList := by
  rw [fileName, String.toList_append, String.toList_append, List.append_assoc]
  rfl

/-- The name of the file of a directive is one that an entry can have. -/
theorem plain_fileName (path : String) :
    Plain (fileName (Text.lowercase (IncludeKey.ofPath path))) where
  noSlash := by
    rw [toList_fileName]
    intro hmem
    rcases List.mem_append.mp hmem with hmem | hmem
    · have hslash := Text.mem_of_mem_lowercase (by decide) (by decide) hmem
      cases IncludeKey.not_isSeparator_of_mem_ofPath hslash
    · exact absurd hmem (by decide)
  meant := by
    rw [toList_fileName, Path.isEmptyPart]
    generalize (Text.lowercase (IncludeKey.ofPath path)).toList = cs
    cases cs with
    | nil => decide
    | cons c cs => simp
  forward := by
    rw [toList_fileName]
    intro heq
    have hlength := congrArg List.length heq
    simp at hlength

/-- A name like one that an entry can have. -/
theorem plain_of_sameLetters {name' : String} (hname : Plain name)
    (h : Text.sameLetters name' name = true) : Plain name' := by
  have hsame : name.toList.map Char.toLower = name'.toList.map Char.toLower := by
    rw [Text.sameLetters, beq_iff_eq] at h
    exact h.symm
  have hkept {cs : List Char} (hcs : name'.toList = cs) (hlow : ∀ c ∈ cs, c.toNat < 97)
      (hfixed : cs.map Char.toLower = cs) : name.toList = cs := by
    refine Text.eq_of_map_toLower_eq ?_ hlow
    rw [hsame, hcs, hfixed]
  constructor
  case noSlash =>
    intro hmem
    have hslash : '/' ∈ name.toList.map Char.toLower := by
      rw [hsame]
      exact List.mem_map.mpr ⟨'/', hmem, rfl⟩
    obtain ⟨c, hc, hlower⟩ := List.mem_map.mp hslash
    rw [Text.eq_of_toLower_eq hlower (by decide)] at hc
    exact hname.noSlash hc
  case meant =>
    refine Bool.eq_false_iff.mpr ?_
    intro hempty
    have hmeant := hname.meant
    rw [Path.isEmptyPart, Bool.or_eq_true, decide_eq_true_eq, decide_eq_true_eq] at hempty
    rcases hempty with hnil | hdot
    · rw [hkept hnil (List.forall_mem_nil _) rfl] at hmeant
      cases hmeant
    · rw [hkept hdot (by simp) rfl] at hmeant
      cases hmeant
  case forward =>
    intro hback
    exact hname.forward (hkept hback (by simp) rfl)

/-! ## Lists of entries -/

/-- The entry at which the search for a name stops in a directory: the file of that name, and if there
is none the first entry whose name differs only in the case of letters from A to Z. -/
def hit? (es : List (String × FileNode)) (name : String) : Option (String × FileNode) :=
  match FileNode.child? es name with
  | some (.file content) => some (name, .file content)
  | some (.dir _) | none => es.find? fun e => Text.sameLetters e.1 name

/-- The entry at which the search for a name stops in some directories. -/
def firstHit? (lists : List (List (String × FileNode))) (name : String) :
    Option (String × FileNode) :=
  lists.findSome? fun es => hit? es name

/-- What comes of an entry at which a search stops: only a file can be read. -/
def sourceOf (name : String) : Option (String × FileNode) → Except Error Bytes
  | some (_, .file content) => .ok content
  | some (_, .dir _) => .error (.sourceIo .isDirectory)
  | none => .error (.sourceNotFound name)

theorem sameLetters_self (name : String) : Text.sameLetters name name = true := beq_self_eq_true _

theorem child?_eq_some (h : FileNode.child? es name = some e.2) (hname : e.1 = name) : e ∈ es := by
  rw [FileNode.child?] at h
  obtain ⟨found, hfind, hnode⟩ := Option.map_eq_some_iff.mp h
  have hfound : found.1 = name := by simpa using List.find?_some hfind
  rw [← Prod.ext (hfound.trans hname.symm) hnode]
  exact List.mem_of_find?_eq_some hfind

/-- A search stops at an entry that is found by its name. -/
theorem child?_of_hit? (h : hit? es name = some e) : FileNode.child? es e.1 = some e.2 := by
  have hsimilar (h : es.find? (fun e => Text.sameLetters e.1 name) = some e) :
      FileNode.child? es e.1 = some e.2 := by
    -- an entry before it that had the same name would be as similar
    obtain ⟨hsame, before, after, rfl, hbefore⟩ := List.find?_eq_some_iff_append.mp h
    rw [FileNode.child?]
    refine Option.map_eq_some_iff.mpr ⟨e, List.find?_eq_some_iff_append.mpr ?_, rfl⟩
    refine ⟨by simp, before, after, rfl, ?_⟩
    intro e' he'
    have hnot := hbefore e' he'
    rw [Bool.not_eq_true'] at hnot ⊢
    rw [decide_eq_false_iff_not]
    intro heq
    rw [heq, hsame] at hnot
    cases hnot
  rw [hit?] at h
  split at h
  · next content hchild =>
      obtain rfl := Option.some.inj h
      exact hchild
  · exact hsimilar h
  · exact hsimilar h

theorem mem_of_hit? (h : hit? es name = some e) : e ∈ es :=
  child?_eq_some (child?_of_hit? h) rfl

theorem sameLetters_of_hit? (h : hit? es name = some e) : Text.sameLetters e.1 name = true := by
  rw [hit?] at h
  split at h
  · obtain rfl := Option.some.inj h
    exact sameLetters_self name
  · simpa using List.find?_some h
  · simpa using List.find?_some h

/-- A search goes on behind a directory exactly if no entry of it is similar. -/
theorem hit?_eq_none_iff :
    hit? es name = none ↔ ∀ e ∈ es, Text.sameLetters e.1 name = false := by
  constructor
  · intro h e he
    rw [hit?] at h
    split at h
    · cases h
    · exact Bool.eq_false_iff.mpr (List.find?_eq_none.mp h e he)
    · exact Bool.eq_false_iff.mpr (List.find?_eq_none.mp h e he)
  · intro h
    cases hhit : hit? es name with
    | none => rfl
    | some e =>
        have hsame := sameLetters_of_hit? hhit
        rw [h e (mem_of_hit? hhit)] at hsame
        cases hsame

theorem firstHit?_eq_some (h : firstHit? lists name = some e) :
    ∃ es ∈ lists, hit? es name = some e :=
  List.exists_of_findSome?_eq_some h

theorem firstHit?_eq_none_iff : firstHit? lists name = none ↔
    ∀ es ∈ lists, ∀ e ∈ es, Text.sameLetters e.1 name = false := by
  rw [firstHit?, List.findSome?_eq_none_iff]
  exact forall₂_congr fun es _ => hit?_eq_none_iff

/-! ## Directories -/

/-- In a directory the search stops at the path of the entry at which it stops in its entries. -/
theorem findIn?_eq (hdir : t.Searchable dir) (hname : Plain name) :
    findIn? t dir name = (hit? (t.held dir) name).map fun e => Path.join dir e.1 := by
  have hsimilar (hfile : t.isFile (Path.join dir name) = false) :
      findIn? t dir name = ((t.held dir).find? fun e => Text.sameLetters e.1 name).map
        fun e => Path.join dir e.1 := by
    rw [findIn?, hfile]
    show (t.held dir).findSome? _ = _
    generalize t.held dir = es
    induction es with
    | nil => rfl
    | cons e es ih =>
        cases hsame : Text.sameLetters e.1 name with
        | true => simp [hsame]
        | false => simpa [hsame] using ih
  have hisFile : t.isFile (Path.join dir name) = true ↔
      ∃ content, FileNode.child? (t.held dir) name = some (.file content) := by
    rw [isFile]
    constructor
    · intro h
      split at h
      · next content hlocate =>
          exact ⟨content, ((locate_join_eq_ok hdir.named hname).mp hlocate).2⟩
      · cases h
    · rintro ⟨content, hchild⟩
      have hmem := @child?_eq_some name _ (name, .file content) hchild rfl
      rw [(locate_join_eq_ok hdir.named hname).mpr ⟨hdir.fits _ hmem, hchild⟩]
  rw [hit?]
  split
  · next content hchild =>
      rw [findIn?, hisFile.mpr ⟨content, hchild⟩]
      rfl
  · next inner hchild =>
      refine hsimilar (Bool.eq_false_iff.mpr ?_)
      intro hfile
      obtain ⟨content, hfound⟩ := hisFile.mp hfile
      cases hchild.symm.trans hfound
  · next hchild =>
      refine hsimilar (Bool.eq_false_iff.mpr ?_)
      intro hfile
      obtain ⟨content, hfound⟩ := hisFile.mp hfile
      cases hchild.symm.trans hfound

/-- A loader gives what a search in the entries of its directories comes to. -/
theorem load_ofDirs (hdirs : ∀ dir ∈ dirs, t.Searchable dir) (hname : Plain (fileName key)) :
    (ofDirs t dirs).load key
      = sourceOf (fileName key) (firstHit? (dirs.map t.held) (fileName key)) := by
  simp only [ofDirs]
  induction dirs with
  | nil => rfl
  | cons dir dirs ih =>
      obtain ⟨hdir, hdirs⟩ := List.forall_mem_cons.mp hdirs
      rw [List.findSome?_cons, List.map_cons, firstHit?, List.findSome?_cons,
        findIn?_eq hdir hname]
      cases hhit : hit? (t.held dir) (fileName key) with
      | none => exact ih hdirs
      | some e =>
          have hplain := plain_of_sameLetters hname (sameLetters_of_hit? hhit)
          have hlocate : t.locate (Path.join dir e.1) = .ok e.2 :=
            (locate_join_eq_ok hdir.named hplain).mpr
              ⟨hdir.fits e (mem_of_hit? hhit), child?_of_hit? hhit⟩
          show readSource t (Path.join dir e.1) = sourceOf (fileName key) (some e)
          obtain ⟨name, node⟩ := e
          cases node with
          | file content =>
              have hread : t.read (Path.join dir name) = .ok content := by
                rw [FileTree.read, hlocate]
                rfl
              rw [readSource, hread]
              rfl
          | dir inner =>
              have hread : t.read (Path.join dir name) = .error .isDirectory := by
                rw [FileTree.read, hlocate]
                rfl
              rw [readSource, hread]
              rfl

/-! ## The number of units -/

theorem entriesAt_eq (t : FileTree) (dir : String) :
    entriesAt t dir = t.held (if dir = "" then "." else dir) :=
  rfl

/-- A search in a directory stops at one of the entries that are counted. -/
theorem exists_of_findIn? {path : String} (hname : Plain name) (hempty : name ≠ "")
    (h : findIn? t dir name = some path) :
    ∃ e ∈ entriesAt t dir, Text.sameLetters e.1 name = true := by
  rw [entriesAt_eq]
  rw [findIn?] at h
  split at h
  · next hfile =>
      rw [isFile] at hfile
      split at hfile
      · next content hlocate =>
          have hchild : FileNode.child? (t.held (if dir = "" then "." else dir)) name
              = some (.file content) := by
            split
            · next hdir =>
                subst hdir
                have hjoin : Path.join "" name = name := by simp [Path.join]
                rw [hjoin] at hlocate
                exact held_of_locate_name hname hempty hlocate
            · next hdir => exact ((locate_join_eq_ok hdir hname).mp hlocate).2
          exact ⟨(name, .file content), child?_eq_some hchild rfl, sameLetters_self name⟩
      · cases hfile
  · obtain ⟨e, he, hpath⟩ := List.exists_of_findSome?_eq_some h
    have hheld : e ∈ t.held (if dir = "" then "." else dir) := by
      split
      · next hdir =>
          subst hdir
          cases he
      · exact he
    refine ⟨e, hheld, ?_⟩
    split at hpath
    · next hsame => exact hsame
    · cases hpath

/-- The key of the units whose files have a name, when the name ends as it should. -/
def keyOf (name : String) : String :=
  String.ofList ((name.toList.map Char.toLower).take (name.toList.length - ".nss".toList.length))

theorem keyOf_eq (h : Text.sameLetters name (fileName (Text.lowercase s)) = true) :
    keyOf name = Text.lowercase s := by
  rw [Text.sameLetters, beq_iff_eq, toList_fileName, List.map_append,
    Text.map_toLower_lowercase] at h
  have hlength := congrArg List.length h
  rw [List.length_map, List.length_append, List.length_map] at hlength
  rw [keyOf, h, hlength, Nat.add_sub_cancel, List.take_left, String.ofList_toList]

/-- A loader that searches directories has no more units than these have entries. -/
theorem among_ofDirs (t : FileTree) (dirs : List String) :
    (ofDirs t dirs).Among (dirs.flatMap fun dir => (entriesAt t dir).map fun e => keyOf e.1) where
  found path source h := by
    simp only [ofDirs] at h
    split at h
    · next found hfound =>
        obtain ⟨dir, hdir, hfind⟩ := List.exists_of_findSome?_eq_some hfound
        have hempty : fileName (Text.lowercase (IncludeKey.ofPath path)) ≠ "" := by
          intro heq
          have hnil := congrArg String.toList heq
          rw [toList_fileName] at hnil
          simp at hnil
        obtain ⟨e, he, hsame⟩ := exists_of_findIn? (plain_fileName path) hempty hfind
        exact List.mem_flatMap.mpr ⟨dir, hdir, List.mem_map.mpr ⟨e, he, keyOf_eq hsame⟩⟩
    · cases h
  length_le := by
    rw [← List.map_flatMap, List.length_map]
    exact Nat.le_refl _

theorem bounded_ofDirs (t : FileTree) (dirs : List String) : (ofDirs t dirs).Bounded :=
  (among_ofDirs t dirs).bounded

/-! ## The names of units -/

/-- A file has the name of a unit, whatever the case of its letters. -/
def NamesUnit (name s : String) : Prop :=
  ∃ stem extension, name = stem ++ "." ++ extension ∧ Text.lowercase stem = Text.lowercase s ∧
    Text.sameLetters extension sourceExtension = true

/-- An entry at which a search for a unit can stop has the name of the unit. -/
theorem namesUnit_of_sameLetters (h : Text.sameLetters name (fileName (Text.lowercase s)) = true) :
    NamesUnit name s := by
  rw [Text.sameLetters, beq_iff_eq, toList_fileName, List.map_append,
    Text.map_toLower_lowercase] at h
  obtain ⟨stem, rest, hname, hstem, hrest⟩ := List.map_eq_append_iff.mp h
  obtain ⟨dot, extension, rfl, hdot, hextension⟩ := List.map_eq_cons_iff.mp hrest
  obtain rfl : dot = '.' := Text.eq_of_toLower_eq hdot (by decide)
  refine ⟨String.ofList stem, String.ofList extension, ?_, ?_, ?_⟩
  · rw [← String.toList_inj, hname]
    simp
  · have hsmall : ∀ c ∈ stem, Text.Small c.toLower := by
      intro c hc
      refine @Text.small_of_mem_lowercase s _ ?_
      rw [← hstem]
      exact List.mem_map_of_mem hc
    rw [Text.lowercase, String.toList_ofList, Text.lowercaseAfter_of_toLower [] hsmall, hstem,
      String.ofList_toList]
  · rw [Text.sameLetters, String.toList_ofList, hextension]
    rfl

/-- What comes of a directive whose key is not registered, when the sources are in directories.  A
search in their entries stops at one that has the name of the unit, or at none.  It stops at a file
if there is the file that the directive names, provided that its name has no capital letters but
those from A to Z, and that no directory has such a name; it stops at none, and the source is not
found, if no entry has the name of the unit. -/
theorem load_directive (hdirs : ∀ dir ∈ dirs, t.Searchable dir) {r : Registry} {path : String}
    (hnew : r.contains (IncludeKey.ofPath path) = false) :
    let s := IncludeKey.ofPath path
    let name := fileName (Text.lowercase s)
    let lists := dirs.map t.held
    let found := (ofDirs t dirs).load (r.normalize path)
    found = sourceOf name (firstHit? lists name) ∧
      (∀ e, firstHit? lists name = some e → (∃ es ∈ lists, e ∈ es) ∧ NamesUnit e.1 s) ∧
      ((∃ es ∈ lists, ∃ content, (fileName s, .file content) ∈ es) →
        Text.sameLetters s (Text.lowercase s) = true →
        (∀ es ∈ lists, ∀ e ∈ es, Text.sameLetters e.1 name = true → ∃ content, e.2 = .file content) →
          ∃ name' content, firstHit? lists name = some (name', .file content) ∧
            found = .ok content) ∧
      ((∀ es ∈ lists, ∀ e ∈ es, ¬ NamesUnit e.1 s) → found = .error (.sourceNotFound name)) := by
  intro s name lists found
  have hkey : r.normalize path = Text.lowercase s := if_neg (by rw [hnew]; exact Bool.false_ne_true)
  have hfound : found = sourceOf name (firstHit? lists name) := by
    show (ofDirs t dirs).load (r.normalize path) = _
    rw [hkey]
    exact load_ofDirs hdirs (plain_fileName path)
  refine ⟨hfound, ?_, ?_, ?_⟩
  · intro e he
    obtain ⟨es, hes, hhit⟩ := firstHit?_eq_some he
    exact ⟨⟨es, hes, mem_of_hit? hhit⟩, namesUnit_of_sameLetters (sameLetters_of_hit? hhit)⟩
  · rintro ⟨es, hes, content, hmem⟩ hletters hfiles
    have hsame : Text.sameLetters (fileName s) name = true := by
      rw [Text.sameLetters, beq_iff_eq] at hletters ⊢
      rw [toList_fileName, toList_fileName, List.map_append, List.map_append, hletters]
    cases hhit : firstHit? lists name with
    | none =>
        have hnone := firstHit?_eq_none_iff.mp hhit es hes _ hmem
        rw [hsame] at hnone
        cases hnone
    | some e =>
        obtain ⟨es', hes', hstops⟩ := firstHit?_eq_some hhit
        obtain ⟨content', hnode⟩ :=
          hfiles es' hes' e (mem_of_hit? hstops) (sameLetters_of_hit? hstops)
        obtain ⟨name', node⟩ := e
        subst hnode
        exact ⟨name', content', rfl, by rw [hfound, hhit]; rfl⟩
  · intro hnone
    have hhit : firstHit? lists name = none := by
      refine firstHit?_eq_none_iff.mpr ?_
      intro es hes e he
      refine Bool.eq_false_iff.mpr ?_
      intro hsame
      exact hnone es hes e he (namesUnit_of_sameLetters hsame)
    rw [hfound, hhit]
    rfl

/-! ### Files that are found, and files that are overlooked -/

/-- A directory that holds one with the name of a unit, and a directory with three files. -/
def shelves : FileTree :=
  .ofRoot (.dir [("a", .dir [("LIB.nss", .dir [])]),
    ("b", .dir [("lib.nss", .file [0x20]), ("Ä.nss", .file [0x20]), ("OWN.nss", .file [0x20])])])

theorem held_shelves : shelves.held "a" = [("LIB.nss", .dir [])] ∧
    shelves.held "b"
      = [("lib.nss", .file [0x20]), ("Ä.nss", .file [0x20]), ("OWN.nss", .file [0x20])] :=
  ⟨rfl, rfl⟩

theorem searchable_shelves : ∀ dir ∈ ["a", "b"], shelves.Searchable dir := by
  have hfits : ∀ dir ∈ ["a", "b"], ∀ e ∈ shelves.held dir, Fits dir e.1 := by
    simp only [List.forall_mem_cons, held_shelves]
    refine ⟨⟨?_, nofun⟩, ⟨?_, ?_, ?_, nofun⟩, nofun⟩
    all_goals exact ⟨by decide, by decide, by decide⟩
  intro dir hdir
  refine ⟨?_, hfits dir hdir⟩
  rintro rfl
  exact absurd hdir (by decide)

/-- The file of a unit whose name is in capital letters. -/
theorem load_directive_shelves :
    ∃ name content, firstHit? (["a", "b"].map shelves.held) "own.nss" = some (name, .file content) ∧
      (ofDirs shelves ["a", "b"]).load (Registry.empty.normalize "inc/OWN") = .ok content := by
  have hnew : Registry.empty.contains (IncludeKey.ofPath "inc/OWN") = false := rfl
  have hkey : IncludeKey.ofPath "inc/OWN" = "OWN" := by decide
  have hsmall : Text.lowercase "OWN" = "own" := by decide +kernel
  obtain ⟨-, -, hfile, -⟩ := load_directive searchable_shelves hnew
  rw [hkey, hsmall] at hfile
  refine hfile ⟨shelves.held "b", by simp, [0x20], ?_⟩ (by decide) ?_
  · rw [held_shelves.2]
    simp [fileName, sourceExtension]
  · -- nothing but the file has a name like it
    simp only [List.map_cons, List.map_nil, List.forall_mem_cons, held_shelves]
    refine ⟨⟨?_, nofun⟩, ⟨?_, ?_, ?_, nofun⟩, nofun⟩
    · exact fun h => absurd h (by decide)
    · exact fun h => absurd h (by decide)
    · exact fun h => absurd h (by decide)
    · exact fun _ => ⟨[0x20], rfl⟩

/-- A file whose name has a capital letter of another alphabet is not found, and one of which there is
a directory of the name before it is not read. -/
theorem directive_overlooked :
    ("Ä.nss", FileNode.file [0x20]) ∈ shelves.held "b" ∧
      (ofDirs shelves ["a", "b"]).load (Registry.empty.normalize "Ä")
        = .error (.sourceNotFound "ä.nss") ∧
      ("lib.nss", FileNode.file [0x20]) ∈ shelves.held "b" ∧
      (ofDirs shelves ["a", "b"]).load (Registry.empty.normalize "lib")
        = .error (.sourceIo .isDirectory) := by
  refine ⟨?_, ?_, ?_, ?_⟩
  · simp [held_shelves]
  · decide +kernel
  · simp [held_shelves]
  · decide +kernel

end Loader
end Nss
