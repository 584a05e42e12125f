/-
# Files that were written

A file can be read back from the path that it was written to.  The path may lead down and up again on
its way, so what has to be seen is that every directory on the way is still there: writing changes
one place, where there was no directory before (`step_put`, `walk_put`).
-/
import Nss.Files.Tree
import Nss.Proofs.Steps
import Mathlib.Data.List.Basic

namespace Nss

open Steps

/-! ## Nodes -/

namespace FileNode

variable {es : List (String × FileNode)} {node new : FileNode}

theorem child?_setEntry_self (name : String) (new : FileNode) (es : List (String × FileNode)) :
    child? (setEntry name new es) name = some new := by
  induction es with
  | nil => simp [setEntry, child?]
  | cons e rest ih =>
      by_cases h : e.1 = name
      · simp [setEntry, child?, h]
      · simpa [setEntry, child?, h] using ih

theorem child?_setEntry_of_ne {name other : String} (hne : other ≠ name) (new : FileNode)
    (es : List (String × FileNode)) : child? (setEntry name new es) other = child? es other := by
  induction es with
  | nil => simp [setEntry, child?, hne.symm]
  | cons e rest ih =>
      by_cases h : e.1 = name
      · simp [setEntry, child?, h, hne.symm]
      · by_cases ho : e.1 = other
        · simp [setEntry, child?, ho, hne]
        · simpa [setEntry, child?, h, ho] using ih

theorem isSome_child?_setEntry (name other : String) (new : FileNode)
    (h : (child? es other).isSome = true) : (child? (setEntry name new es) other).isSome = true := by
  by_cases hne : other = name
  · subst hne
    simp [child?_setEntry_self]
  · simpa [child?_setEntry_of_ne hne] using h

theorem entries_put (node : FileNode) (name : String) (rest : List String) (new : FileNode) :
    (node.put (name :: rest) new).entries
      = setEntry name (((child? node.entries name).getD (dir [])).put rest new) node.entries := rfl

theorem at?_cons (node : FileNode) (name : String) (rest : List String) :
    node.at? (name :: rest) = (child? node.entries name).bind fun c => c.at? rest := rfl

/-- What is put at a place is there. -/
theorem at?_put (names : List String) : ∀ node : FileNode, (node.put names new).at? names = some new := by
  induction names with
  | nil =>
      intro node
      simp [put, at?]
  | cons name rest ih =>
      intro node
      simp [at?_cons, entries_put, child?_setEntry_self, ih]

theorem at?_append (names more : List String) : ∀ node : FileNode,
    node.at? (names ++ more) = (node.at? names).bind fun c => c.at? more := by
  induction names with
  | nil => exact fun node => rfl
  | cons name rest ih =>
      intro node
      rw [List.cons_append, at?_cons, at?_cons, Option.bind_assoc]
      exact congrArg _ (funext fun c => ih c)

/-- A node that has an entry is a directory. -/
theorem eq_dir_of_child? {name : String} {c : FileNode} (h : child? node.entries name = some c) :
    node = dir node.entries := by
  cases node with
  | file content => simp [entries, child?] at h
  | dir es => rfl

/-- A directory stays a directory, with at least the entries that it had, when something is put where
there is no directory. -/
theorem at?_put_of_dir (names : List String) : ∀ {node : FileNode} {place : List String},
    node.at? place = some (dir es) → (∀ es', node.at? names ≠ some (dir es')) →
      ∃ es', (node.put names new).at? place = some (dir es') ∧
        ∀ name, (child? es name).isSome = true → (child? es' name).isSome = true := by
  induction names with
  | nil =>
      intro node place hdir hnew
      exfalso
      cases place with
      | nil => exact hnew es hdir
      | cons name rest =>
          obtain ⟨c, hc, -⟩ := Option.bind_eq_some_iff.mp hdir
          exact hnew node.entries (congrArg some (eq_dir_of_child? hc))
  | cons first rest ih =>
      intro node place hdir hnew
      cases place with
      | nil =>
          obtain rfl := Option.some.inj hdir
          exact ⟨_, rfl, fun name h => isSome_child?_setEntry first name _ h⟩
      | cons name place =>
          obtain ⟨c, hc, hplace⟩ := Option.bind_eq_some_iff.mp hdir
          by_cases heq : name = first
          · subst heq
            have hinner : ∀ es', c.at? rest ≠ some (dir es') := by
              intro es' h
              exact hnew es' (by simp [at?_cons, hc, h])
            obtain ⟨es', hat, hkept⟩ := ih hplace hinner
            refine ⟨es', ?_, hkept⟩
            simpa [at?_cons, entries_put, child?_setEntry_self, hc] using hat
          · refine ⟨es, ?_, fun _ h => h⟩
            simpa [at?_cons, entries_put, child?_setEntry_of_ne heq, hc] using hplace

end FileNode

/-! ## Trees -/

namespace FileTree

variable {t t' : FileTree} {place here there : Location} {new : FileNode}
  {es : List (String × FileNode)} {path : String} {content : Bytes}

theorem node_put_self (t : FileTree) (l : Location) (new : FileNode) :
    (t.put l new).node l.base = (t.node l.base).put l.names new := by
  obtain ⟨base, names⟩ := l
  cases base with
  | working => rfl
  | above n => simp [put, node]
  | top => simp [put, node]

theorem node_put_of_ne {l : Location} {base : Base} (hne : base ≠ l.base) (new : FileNode) :
    (t.put l new).node base = t.node base := by
  obtain ⟨b, names⟩ := l
  have hkept : ∀ b : Base, base ≠ b → ∀ n : FileNode,
      ((b, n) :: t.outside.filter fun e => e.1 ≠ b).find? (fun e => e.1 = base)
        = t.outside.find? fun e => e.1 = base := by
    intro b hb n
    have hfind : (t.outside.filter fun e => e.1 ≠ b).find? (fun e => e.1 = base)
        = t.outside.find? fun e => e.1 = base := by
      rw [List.find?_filter]
      congr 1
      funext e
      by_cases he : e.1 = base
      · simp [he, hb]
      · simp [he]
    simpa [List.find?_cons, hb.symm] using hfind
  cases b with
  | working =>
      cases base with
      | working => exact absurd rfl hne
      | above n => rfl
      | top => rfl
  | above n =>
      cases base with
      | working => rfl
      | above m => simp only [put, node, hkept _ hne]
      | top => simp only [put, node, hkept _ hne]
  | top =>
      cases base with
      | working => rfl
      | above m => simp only [put, node, hkept _ hne]
      | top => exact absurd rfl hne

/-- What is put at a place is there. -/
theorem at?_put_self (t : FileTree) (l : Location) (new : FileNode) :
    (t.put l new).at? l = some new := by
  rw [at?, node_put_self, FileNode.at?_put]

/-- What is at the place of an entry is that entry. -/
theorem at?_child (hdir : t.at? here = some (.dir es)) (name : String) :
    t.at? (here.child name) = FileNode.child? es name := by
  rw [at?, Location.child, FileNode.at?_append]
  rw [at?] at hdir
  simp [hdir, FileNode.at?, FileNode.entries]

/-- A directory stays a directory, with at least the entries that it had. -/
theorem at?_put_of_dir (hdir : t.at? here = some (.dir es))
    (hnew : ∀ es', t.at? place ≠ some (.dir es')) (new : FileNode) :
    ∃ es', (t.put place new).at? here = some (.dir es') ∧
      ∀ name, (FileNode.child? es name).isSome = true →
        (FileNode.child? es' name).isSome = true := by
  by_cases hbase : here.base = place.base
  · rw [at?, hbase] at hdir
    rw [at?, hbase, node_put_self]
    exact FileNode.at?_put_of_dir _ hdir hnew
  · refine ⟨es, ?_, fun _ h => h⟩
    rw [at?, node_put_of_ne hbase]
    exact hdir

/-- A step of a path starts in a directory, and stays there, leads back, or goes to an entry. -/
theorem step_eq_ok {part : List Char} (h : t.step here part = .ok there) :
    ∃ es, t.at? here = some (.dir es) ∧
      ((Path.isEmptyPart part = true ∧ there = here) ∨
        (Path.isEmptyPart part = false ∧ part = ['.', '.'] ∧ there = here.parent) ∨
        (Path.isEmptyPart part = false ∧ part ≠ ['.', '.'] ∧ ¬ maxName < utf8Width part ∧
          (FileNode.child? es (String.ofList part)).isSome = true ∧
          there = here.child (String.ofList part))) := by
  rw [step] at h
  split at h
  · next es hdir =>
      refine ⟨es, hdir, ?_⟩
      split at h
      · next hempty => exact .inl ⟨hempty, (Except.ok.inj h).symm⟩
      · next hempty =>
          rw [Bool.not_eq_true] at hempty
          split at h
          · next hback => exact .inr (.inl ⟨hempty, hback, (Except.ok.inj h).symm⟩)
          · next hback =>
              split at h
              · cases h
              · next hshort =>
                  split at h
                  · next hchild =>
                      exact .inr (.inr ⟨hempty, hback, hshort, hchild, (Except.ok.inj h).symm⟩)
                  · cases h
  · cases h
  · cases h

/-- A step of a path leads to the same place when something was put where there is no directory. -/
theorem step_put (hnew : ∀ es', t.at? place ≠ some (.dir es')) {part : List Char}
    (h : t.step here part = .ok there) (new : FileNode) :
    (t.put place new).step here part = .ok there := by
  obtain ⟨es, hdir, hcases⟩ := step_eq_ok h
  obtain ⟨es', hdir', hkept⟩ := at?_put_of_dir hdir hnew new
  rw [step, hdir']
  rcases hcases with ⟨hempty, rfl⟩ | ⟨hempty, rfl, rfl⟩ | ⟨hempty, hback, hshort, hchild, rfl⟩
  · simp [hempty]
  · simp [hempty]
  · simp [hempty, hback, hshort, hkept _ hchild]

theorem walk_put (hnew : ∀ es', t.at? place ≠ some (.dir es')) (new : FileNode)
    (parts : List (List Char)) : ∀ {here : Location}, t.walk here parts = .ok there →
      (t.put place new).walk here parts = .ok there := by
  induction parts with
  | nil => exact fun h => h
  | cons part rest ih =>
      intro here h
      obtain ⟨mid, hstep, hrest⟩ := except_bind_eq_ok.mp h
      exact except_bind_eq_ok.mpr ⟨mid, step_put hnew hstep new, ih hrest⟩

theorem walk_append (parts more : List (List Char)) : ∀ here : Location,
    t.walk here (parts ++ more) = t.walk here parts >>= fun mid => t.walk mid more := by
  induction parts with
  | nil => exact fun here => rfl
  | cons part rest ih =>
      intro here
      simp only [List.cons_append, walk]
      cases t.step here part with
      | error e => rfl
      | ok mid => exact ih mid

/-! ## Writing and reading -/

/-- Where a path leads that a file can be written to: the last part of it is a name in a directory,
and not that of another directory. -/
structure Leads (t : FileTree) (path : String) (origin here : Location)
    (parts : List (List Char)) (name : List Char) (es : List (String × FileNode)) : Prop where
  start : start path = .ok (origin, parts ++ [name])
  walk : t.walk origin parts = .ok here
  dir : t.at? here = some (.dir es)
  named : Path.isEmptyPart name = false ∧ name ≠ ['.', '.']
  short : ¬ maxName < utf8Width name
  free : ∀ es', FileNode.child? es (String.ofList name) ≠ some (.dir es')

theorem write_eq_ok (h : t.write path content = .ok t') :
    ∃ origin here parts name es, Leads t path origin here parts name es ∧
      t' = t.put (here.child (String.ofList name)) (.file content) := by
  rw [write] at h
  obtain ⟨⟨origin, parts⟩, hstart, h⟩ := except_bind_eq_ok.mp h
  dsimp only at h
  generalize hnamed : (parts.reverse.dropWhile (· = [])).reverse = named at h
  obtain ⟨here, hwalk, h⟩ := except_bind_eq_ok.mp h
  split at h
  · next es name hdir hlast =>
      split at h
      · cases h
      · next hplain =>
          obtain ⟨hlength, hplain⟩ := not_or.mp hplain
          obtain ⟨hdot, hback⟩ := not_or.mp hplain
          have hsplit : named = named.dropLast ++ [name] :=
            (List.dropLast_append_getLast? name hlast).symm
          -- no part was dropped, so the path does not end in slashes
          have hparts : parts = named := by
            have hsuffix : parts.reverse.dropWhile (· = []) = parts.reverse := by
              refine (List.dropWhile_suffix _).eq_of_length_le ?_
              have hlen := congrArg List.length hnamed
              simp only [List.length_reverse] at hlen
              simp only [List.length_reverse]
              omega
            rw [← hnamed, hsuffix, List.reverse_reverse]
          have hname : name ≠ [] := by
            have hhead := List.head?_dropWhile_not (· = ([] : List Char)) parts.reverse
            have hlast' : (parts.reverse.dropWhile (· = [])).head? = some name := by
              rw [← hlast, ← hnamed, List.getLast?_reverse]
            rw [hlast'] at hhead
            simpa using hhead
          split at h
          · cases h
          · next hshort =>
              have hleads (hfree : ∀ es',
                  FileNode.child? es (String.ofList name) ≠ some (.dir es')) :
                  Leads t path origin here named.dropLast name es := by
                refine ⟨?_, hwalk, hdir, ⟨?_, hback⟩, hshort, hfree⟩
                · rw [← hsplit, ← hparts]
                  exact hstart
                · simp [Path.isEmptyPart, hname, hdot]
              split at h
              · cases h
              · next hfree =>
                  obtain rfl := Except.ok.inj h
                  exact ⟨origin, here, named.dropLast, name, es, hleads hfree, rfl⟩
  · cases h
  · cases h
  · cases h

/-- A file is read as it was written. -/
theorem read_write (h : t.write path content = .ok t') : t'.read path = .ok content := by
  obtain ⟨origin, here, parts, name, es, hleads, rfl⟩ := write_eq_ok h
  obtain ⟨hempty, hback⟩ := hleads.named
  have hnew : ∀ es', t.at? (here.child (String.ofList name)) ≠ some (.dir es') := by
    rw [at?_child hleads.dir]
    exact hleads.free
  have hself := at?_put_self t (here.child (String.ofList name)) (.file content)
  have hwalk := walk_put hnew (.file content) parts hleads.walk
  obtain ⟨es', hdir, -⟩ := at?_put_of_dir hleads.dir hnew (.file content)
  have hentry : FileNode.child? es' (String.ofList name) = some (.file content) := by
    rw [← at?_child hdir, hself]
  generalize t.put (here.child (String.ofList name)) (.file content) = t' at hself hwalk hdir
  have hstep : t'.step here name = .ok (here.child (String.ofList name)) := by
    rw [step, hdir]
    simp [hempty, hback, hleads.short, hentry]
  have hall : t'.walk origin (parts ++ [name]) = .ok (here.child (String.ofList name)) := by
    rw [walk_append, hwalk]
    exact except_bind_eq_ok.mpr ⟨here, rfl, except_bind_eq_ok.mpr ⟨_, hstep, rfl⟩⟩
  have hlocate : t'.locate path = .ok (.file content) := by
    rw [locate, hleads.start]
    simp [bind, Except.bind, hall, hself, pure, Except.pure]
  rw [read, hlocate]
  rfl

end FileTree

end Nss
