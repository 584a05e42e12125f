/-
# The paths of scripts and of what is compiled from them

The compiled script lies next to its source and has the stem of its name (`ofOutput_append`).  What
extension of scripts the source has makes no difference, be it in capital or in small letters.  The
one exception is a source whose stem is a dot: nothing can be written for it.

    source    dir / stem.nss    dir / stem.NSS    dir / ..nss
    output    dir / stem.ncs    dir / stem.ncs    dir / ..

The path of a compiled script is never that of a script (`isScript_ofOutput`).
-/
import Nss.Proofs.Include.Directories

namespace Nss

/-! ## Texts between separators -/

namespace Text

variable {separator : Char} {p : Char → Bool} {c : Char} {cs before after : List Char}

/-- A text is split at a character behind which there is no other of the kind. -/
theorem splitLast?_append (hc : p c = true) (hafter : ∀ a ∈ after, p a = false) :
    splitLast? p (before ++ c :: after) = some (before, after) := by
  have htake : (before ++ c :: after).reverse.takeWhile (fun a => !p a) = after.reverse := by
    rw [List.reverse_append, List.reverse_cons, List.append_assoc, List.takeWhile_append_of_pos]
    · simp [hc]
    · intro a ha
      rw [hafter a (List.mem_reverse.mp ha)]
      rfl
  rw [splitLast?, htake, List.reverse_reverse]
  simp only [List.length_append, List.length_cons]
  rw [if_neg (by omega)]
  have hlength : before.length + (after.length + 1) - after.length - 1 = before.length := by omega
  rw [hlength, List.take_left]

/-- A text that is split consists of what stands before a character, the character, and what stands
behind it. -/
theorem eq_of_splitLast? (h : splitLast? p cs = some (before, after)) :
    ∃ c, p c = true ∧ cs = before ++ c :: after := by
  have hall : cs.reverse.takeWhile (fun c => !p c) ++ cs.reverse.dropWhile (fun c => !p c)
      = cs.reverse := List.takeWhile_append_dropWhile
  cases hrest : cs.reverse.dropWhile (fun c => !p c) with
  | nil =>
      rw [hrest, List.append_nil] at hall
      rw [splitLast?, hall, if_pos (by simp)] at h
      cases h
  | cons c rest =>
      have hc : p c = true := by
        have hhead := List.head?_dropWhile_not (fun c => !p c) cs.reverse
        rw [hrest] at hhead
        simpa using hhead
      have hcs : cs = rest.reverse ++ c :: (cs.reverse.takeWhile fun c => !p c).reverse := by
        rw [hrest] at hall
        simpa using (congrArg List.reverse hall).symm
      have hafter : ∀ a ∈ (cs.reverse.takeWhile fun c => !p c).reverse, p a = false := by
        intro a ha
        simpa using List.mem_takeWhile_imp (List.mem_reverse.mp ha)
      generalize (cs.reverse.takeWhile fun c => !p c).reverse = tail at hcs hafter
      subst hcs
      rw [splitLast?_append hc hafter] at h
      obtain ⟨rfl, rfl⟩ := Prod.mk.inj (Option.some.inj h)
      exact ⟨c, hc, rfl⟩

theorem not_mem_of_mem_pieces {piece : List Char} (h : piece ∈ pieces separator cs) :
    separator ∉ piece := by
  induction cs generalizing piece with
  | nil =>
      rw [pieces, List.mem_singleton] at h
      subst h
      exact List.not_mem_nil
  | cons c cs ih =>
      rw [pieces] at h
      split at h
      · rcases List.mem_cons.mp h with rfl | h
        · exact List.not_mem_nil
        · exact ih h
      · next hc =>
          cases hpieces : pieces separator cs with
          | nil => exact absurd hpieces (pieces_ne_nil cs)
          | cons first rest =>
              rw [hpieces] at h ih
              rcases List.mem_cons.mp h with rfl | h
              · exact List.not_mem_cons_of_ne_of_not_mem (Ne.symm hc) (ih List.mem_cons_self)
              · exact ih (List.mem_cons_of_mem _ h)

theorem joinWith_cons {between piece : List Char} {rest : List (List Char)} (h : rest ≠ []) :
    joinWith between (piece :: rest) = piece ++ between ++ joinWith between rest := by
  cases rest with
  | nil => exact absurd rfl h
  | cons next rest => rfl

theorem joinWith_append_singleton {between piece : List Char} {body : List (List Char)}
    (h : body ≠ []) :
    joinWith between (body ++ [piece]) = joinWith between body ++ between ++ piece := by
  induction body with
  | nil => exact absurd rfl h
  | cons first rest ih =>
      cases rest with
      | nil => rfl
      | cons next rest =>
          rw [List.cons_append, joinWith_cons (by simp), ih (List.cons_ne_nil _ _),
            joinWith_cons (List.cons_ne_nil _ _)]
          simp [List.append_assoc]

/-- The pieces of a text make up the text. -/
theorem joinWith_pieces (cs : List Char) : joinWith [separator] (pieces separator cs) = cs := by
  induction cs with
  | nil => rfl
  | cons c cs ih =>
      rw [pieces]
      split
      · next hc => rw [joinWith_cons (pieces_ne_nil cs), ih, hc]; rfl
      · cases hpieces : pieces separator cs with
        | nil => exact absurd hpieces (pieces_ne_nil cs)
        | cons piece rest =>
            rw [hpieces] at ih
            rw [← ih]
            cases rest with
            | nil => rfl
            | cons next rest => rfl

/-- What can stand before a name: nothing, or a text that a separator ends. -/
def Opens (separator : Char) (cs : List Char) : Prop := cs = [] ∨ cs.getLast? = some separator

theorem opens_append_separator (cs : List Char) : Opens separator (cs ++ [separator]) :=
  .inr List.getLast?_concat

theorem Opens.tail (h : Opens separator (c :: cs)) : Opens separator cs := by
  cases cs with
  | nil => exact .inl rfl
  | cons next cs =>
      refine .inr ?_
      rcases h with h | h
      · cases h
      · rwa [List.getLast?_cons_cons] at h

/-- Every text is one that opens, with a text that has no separator. -/
theorem exists_opens (separator : Char) (cs : List Char) :
    ∃ pre name, cs = pre ++ name ∧ Opens separator pre ∧ separator ∉ name := by
  cases hsplit : splitLast? (· = separator) cs with
  | none =>
      refine ⟨[], cs, rfl, .inl rfl, fun hmem => ?_⟩
      simpa using not_mem_of_splitLast?_eq_none hsplit _ hmem
  | some parts =>
      obtain ⟨before, after⟩ := parts
      obtain ⟨c, hc, rfl⟩ := eq_of_splitLast? hsplit
      obtain rfl : c = separator := by simpa using hc
      refine ⟨before ++ [c], after, by simp, opens_append_separator before, fun hmem => ?_⟩
      simpa using not_mem_of_splitLast? hsplit _ hmem

/-- A name behind a text that opens is the last piece. -/
theorem Opens.pieces_append {pre name : List Char} (h : Opens separator pre)
    (hname : separator ∉ name) : ∃ body, pieces separator (pre ++ name) = body ++ [name] := by
  rcases h with rfl | h
  · exact ⟨[], pieces_of_not_mem hname⟩
  · obtain ⟨cs, rfl⟩ := List.getLast?_eq_some_iff.mp h
    refine ⟨pieces separator cs, ?_⟩
    rw [List.append_assoc]
    exact pieces_word cs hname

end Text

namespace Path

open Text

variable {pre name stem ext : List Char} {body : List (List Char)} {path : String}

/-! ## The name at the end of a path -/

/-- The parts of a path make up the path. -/
theorem head_append_joinParts (path : String) :
    (parts path).head ++ joinParts (parts path).body = path.toList := by
  rw [parts]
  split
  · next rest heq => rw [heq, joinParts, joinWith_pieces]; rfl
  · next heq => rw [heq]; rfl
  · next rest heq => rw [heq, joinParts, joinWith_cons (pieces_ne_nil rest), joinWith_pieces]; rfl
  · exact joinWith_pieces _

theorem head_cases (path : String) :
    (parts path).head = [] ∨ (parts path).head = ['/'] ∨ (parts path).head = ['.'] := by
  rw [parts]
  split
  · exact .inr (.inl rfl)
  · exact .inr (.inr rfl)
  · exact .inr (.inr rfl)
  · exact .inl rfl

theorem not_mem_of_mem_body {part : List Char} (h : part ∈ (parts path).body) : '/' ∉ part := by
  rw [parts] at h
  split at h
  · exact not_mem_of_mem_pieces h
  · cases h
  · rcases List.mem_cons.mp h with rfl | h
    · exact List.not_mem_nil
    · exact not_mem_of_mem_pieces h
  · exact not_mem_of_mem_pieces h

theorem joinParts_append_singleton (hbody : body ≠ []) (part : List Char) :
    joinParts (body ++ [part]) = joinParts body ++ '/' :: part := by
  rw [joinParts, joinWith_append_singleton hbody, List.append_assoc]
  rfl

/-- A name behind a text that opens is the last part of the path. -/
theorem exists_parts_append (hpre : Opens '/' pre) (hname : '/' ∉ name) (hdot : name ≠ ['.']) :
    ∃ head body, parts (String.ofList (pre ++ name)) = ⟨head, body ++ [name]⟩ := by
  rw [parts, String.toList_ofList]
  split
  · next rest heq =>
      rcases List.append_eq_cons_iff.mp heq with ⟨-, rfl⟩ | ⟨pre', rfl, rfl⟩
      · exact absurd List.mem_cons_self hname
      · obtain ⟨body, hbody⟩ := hpre.tail.pieces_append hname
        exact ⟨_, body, by rw [hbody]⟩
  · next heq =>
      rcases List.append_eq_singleton_iff.mp heq with ⟨-, h⟩ | ⟨rfl, -⟩
      · exact absurd h hdot
      · rcases hpre with h | h
        · cases h
        · cases h
  · next rest heq =>
      rcases List.append_eq_cons_iff.mp heq with ⟨-, rfl⟩ | ⟨pre', rfl, hrest⟩
      · exact absurd (by simp) hname
      · rcases List.append_eq_cons_iff.mp hrest.symm with ⟨-, rfl⟩ | ⟨pre'', rfl, rfl⟩
        · exact absurd List.mem_cons_self hname
        · obtain ⟨body, hbody⟩ := hpre.tail.tail.pieces_append hname
          exact ⟨_, [] :: body, by rw [hbody]; rfl⟩
  · obtain ⟨body, hbody⟩ := hpre.pieces_append hname
    exact ⟨_, body, by rw [hbody]⟩

theorem trimEnd_append (hmeant : isEmptyPart name = false) :
    trimEnd (body ++ [name]) = body ++ [name] := by
  rw [trimEnd, List.reverse_append, List.reverse_singleton, List.singleton_append,
    List.dropWhile_cons_of_neg (by simp [hmeant]), List.reverse_cons, List.reverse_reverse]

/-- The name behind a text that opens is the name of the file, if it is one. -/
theorem fileName?_append (hpre : Opens '/' pre) (hname : '/' ∉ name)
    (hmeant : isEmptyPart name = false) :
    fileName? (String.ofList (pre ++ name)) = if name = ['.', '.'] then none else some name := by
  have hdot : name ≠ ['.'] := by
    rintro rfl
    cases hmeant
  obtain ⟨head, body, hparts⟩ := exists_parts_append hpre hname hdot
  rw [fileName?, meant, hparts]
  dsimp only
  rw [trimEnd_append hmeant, List.getLast?_concat]

/-- An extension is set behind the stem of the name. -/
theorem setExtension_append (hpre : Opens '/' pre) (hname : '/' ∉ name)
    (hmeant : isEmptyPart name = false) (hforward : name ≠ ['.', '.']) (extension : String) :
    setExtension (String.ofList (pre ++ name)) extension
      = String.ofList (pre ++ ((splitName name).1 ++ '.' :: extension.toList)) := by
  have hdot : name ≠ ['.'] := by
    rintro rfl
    cases hmeant
  obtain ⟨head, body, hparts⟩ := exists_parts_append hpre hname hdot
  have hall := head_append_joinParts (String.ofList (pre ++ name))
  rw [hparts, String.toList_ofList] at hall
  dsimp only at hall
  rw [setExtension, fileName?_append hpre hname hmeant, if_neg hforward, meant, hparts]
  dsimp only
  rw [trimEnd_append hmeant, List.dropLast_concat]
  congr 1
  by_cases hbody : body = []
  · subst hbody
    have hhead : head = pre := List.append_cancel_right hall
    rw [hhead]
    rfl
  · rw [joinParts_append_singleton hbody, ← List.singleton_append, ← List.append_assoc,
      ← List.append_assoc] at hall ⊢
    rw [List.append_cancel_right hall]

theorem fileName?_eq_some (h : fileName? path = some name) :
    (meant path).getLast? = some name := by
  rw [fileName?] at h
  split at h
  · next found hfound =>
      split at h
      · cases h
      · rw [hfound, h]
  · cases h

/-- The stem of the name of a file has no slash, as it is a part of the path. -/
theorem slash_not_mem_splitName (h : fileName? path = some name) : '/' ∉ (splitName name).1 := by
  have hname : '/' ∉ name := by
    have hmem : name ∈ meant path := List.mem_of_getLast? (fileName?_eq_some h)
    rw [meant, trimEnd, List.mem_reverse] at hmem
    exact not_mem_of_mem_body (List.mem_reverse.mp ((List.dropWhile_sublist _).subset hmem))
  rw [splitName]
  split
  · exact hname
  · exact hname
  · next hsplit => exact fun hmem => hname (mem_of_splitLast? hsplit _ hmem)

/-- A path behind whose name an extension was set has a name that the extension ends. -/
theorem setExtension_cases (path extension : String) :
    (fileName? path = none ∧ setExtension path extension = path) ∨
      ∃ pre stem, Opens '/' pre ∧ '/' ∉ stem ∧
        setExtension path extension = String.ofList (pre ++ (stem ++ '.' :: extension.toList)) := by
  rw [setExtension]
  cases hname : fileName? path with
  | none => exact .inl ⟨rfl, rfl⟩
  | some name =>
      refine .inr ?_
      dsimp only
      have hstem := slash_not_mem_splitName hname
      by_cases hbefore : (meant path).dropLast = []
      · rw [hbefore]
        rcases head_cases path with hhead | hhead | hhead
        · exact ⟨[], _, .inl rfl, hstem, by rw [hhead]; rfl⟩
        · exact ⟨['/'], _, .inr rfl, hstem, by rw [hhead]; rfl⟩
        · exact ⟨[], '.' :: (splitName name).1, .inl rfl,
            List.not_mem_cons_of_ne_of_not_mem (by decide) hstem, by rw [hhead]; rfl⟩
      · refine ⟨(parts path).head ++ joinParts (meant path).dropLast ++ ['/'], _,
          opens_append_separator _, hstem, ?_⟩
        rw [joinParts_append_singleton hbefore]
        simp [List.append_assoc]

/-- The path of what lies in a directory is that of the directory, ended by a slash, with the name
behind it. -/
theorem exists_join_eq {dir : String} (hdir : dir ≠ "") :
    ∃ cs, ∀ name : List Char, '/' ∉ name →
      join dir (String.ofList name) = String.ofList (cs ++ ['/'] ++ name) := by
  have hrelative {name : List Char} (hname : '/' ∉ name) :
      ¬ (String.ofList name).toList.head? = some '/' := by
    rw [String.toList_ofList]
    exact fun hhead => hname (List.mem_of_head? hhead)
  by_cases hlast : dir.toList.getLast? = some '/'
  · obtain ⟨cs, hcs⟩ := List.getLast?_eq_some_iff.mp hlast
    refine ⟨cs, fun name hname => ?_⟩
    rw [join, if_neg (hrelative hname), if_pos (.inr hlast), ← String.toList_inj,
      String.toList_append, hcs, String.toList_ofList, String.toList_ofList]
  · refine ⟨dir.toList, fun name hname => ?_⟩
    have hslash : "/".toList = ['/'] := rfl
    rw [join, if_neg (hrelative hname), if_neg (not_or.mpr ⟨hdir, hlast⟩), ← String.toList_inj,
      String.toList_append, String.toList_append, hslash, String.toList_ofList,
      String.toList_ofList]

/-! ## Stems and extensions -/

theorem splitName_append (hstem : stem ≠ []) (hext : '.' ∉ ext) :
    splitName (stem ++ '.' :: ext) = (stem, some ext) := by
  have hsplit : splitLast? (· = '.') (stem ++ '.' :: ext) = some (stem, ext) := by
    refine splitLast?_append (by simp) fun a ha => ?_
    simpa using ne_of_mem_of_not_mem ha hext
  obtain ⟨c, stem, rfl⟩ := List.exists_cons_of_ne_nil hstem
  rw [splitName, hsplit]

theorem isEmptyPart_append (stem : List Char) (hext : ext ≠ []) :
    isEmptyPart (stem ++ '.' :: ext) = false := by
  obtain ⟨c, ext, rfl⟩ := List.exists_cons_of_ne_nil hext
  cases stem with
  | nil => simp [isEmptyPart]
  | cons d stem => simp [isEmptyPart]

/-- An extension of scripts, in capital or small letters. -/
def Marks (ext : List Char) : Prop := ext.map Char.toLower = sourceExtension.toList

theorem sameLetters_sourceExtension {s : String} :
    sameLetters s sourceExtension = true ↔ Marks s.toList := by
  rw [sameLetters, beq_iff_eq]
  rfl

theorem Marks.length_eq (h : Marks ext) : ext.length = 3 := by
  have hlength := congrArg List.length h
  rwa [List.length_map] at hlength

theorem Marks.ne_nil (h : Marks ext) : ext ≠ [] := by
  rintro rfl
  cases h.length_eq

theorem Marks.not_mem {c : Char} (h : Marks ext) (hc : c.toLower ∉ sourceExtension.toList) :
    c ∉ ext := by
  intro hmem
  exact hc (h ▸ List.mem_map_of_mem hmem)

theorem Marks.slash_not_mem (h : Marks ext) (hstem : '/' ∉ stem) : '/' ∉ stem ++ '.' :: ext := by
  simp only [List.mem_append, List.mem_cons, not_or]
  exact ⟨hstem, by decide, h.not_mem (by decide)⟩

/-- The name of a script has an extension of scripts behind a stem. -/
theorem exists_of_isScript (hpre : Opens '/' pre) (hname : '/' ∉ name)
    (hmeant : isEmptyPart name = false) (h : isScript (String.ofList (pre ++ name)) = true) :
    ∃ stem ext, name = stem ++ '.' :: ext ∧ stem ≠ [] ∧ Marks ext := by
  rw [isScript, extension?, fileName?_append hpre hname hmeant] at h
  by_cases hback : name = ['.', '.']
  · rw [if_pos hback] at h
    cases h
  · rw [if_neg hback, Option.bind_some, splitName] at h
    split at h
    · cases h
    · cases h
    · next stem ext hstem hsplit =>
        obtain ⟨c, hc, rfl⟩ := eq_of_splitLast? hsplit
        obtain rfl : c = '.' := by simpa using hc
        refine ⟨stem, ext, rfl, hstem, ?_⟩
        rw [Option.map_some, Option.any_some, sameLetters_sourceExtension,
          String.toList_ofList] at h
        exact h

/-! ## What is written for a script -/

/-- The name of what is compiled from a script, by the stem of the name of the script. -/
def outputName (stem : List Char) : List Char :=
  if stem = ['.'] then ['.', '.'] else stem ++ '.' :: outputExtension.toList

theorem extension?_append (hpre : Opens '/' pre) (hslash : '/' ∉ stem ++ '.' :: ext)
    (hstem : stem ≠ []) (hext : ext ≠ []) (hdot : '.' ∉ ext) :
    extension? (String.ofList (pre ++ (stem ++ '.' :: ext))) = some (String.ofList ext) := by
  have hforward : stem ++ '.' :: ext ≠ ['.', '.'] := by
    intro heq
    obtain ⟨c, stem, rfl⟩ := List.exists_cons_of_ne_nil hstem
    obtain ⟨d, ext, rfl⟩ := List.exists_cons_of_ne_nil hext
    have hlength := congrArg List.length heq
    simp only [List.length_append, List.length_cons, List.length_nil] at hlength
    omega
  rw [extension?, fileName?_append hpre hslash (isEmptyPart_append stem hext), if_neg hforward,
    Option.bind_some, splitName_append hstem hdot]
  rfl

/-- Another extension stands in the place of the old one.  Behind a dot there is no place for it:
what is left without the old one is a step upwards. -/
theorem withExtension_append (hpre : Opens '/' pre) (hslash : '/' ∉ stem ++ '.' :: ext)
    (hstem : stem ≠ []) (hext : ext ≠ []) (hdot : '.' ∉ ext) (extension : String) :
    withExtension (String.ofList (pre ++ (stem ++ '.' :: ext))) extension
      = String.ofList (pre ++
        if stem = ['.'] then ['.', '.'] else stem ++ '.' :: extension.toList) := by
  have hcut : (String.ofList (pre ++ (stem ++ '.' :: ext))).toList.take
      ((String.ofList (pre ++ (stem ++ '.' :: ext))).toList.length
        - (String.ofList ext).toList.length) = pre ++ (stem ++ ['.']) := by
    have happend : pre ++ (stem ++ '.' :: ext) = pre ++ (stem ++ ['.']) ++ ext := by
      simp [List.append_assoc]
    rw [String.toList_ofList, String.toList_ofList, happend, List.length_append,
      Nat.add_sub_cancel, List.take_left]
  have hmeant : isEmptyPart (stem ++ ['.']) = false := by
    obtain ⟨c, stem, rfl⟩ := List.exists_cons_of_ne_nil hstem
    simp [isEmptyPart]
  have hlast : '/' ∉ stem ++ ['.'] := by
    simp only [List.mem_append, List.mem_cons, not_or] at hslash ⊢
    exact ⟨hslash.1, by decide, List.not_mem_nil⟩
  rw [withExtension, extension?_append hpre hslash hstem hext hdot]
  dsimp only
  rw [hcut]
  by_cases hup : stem = ['.']
  · subst hup
    rw [setExtension, fileName?_append hpre hlast hmeant]
    rfl
  · have hforward : stem ++ ['.'] ≠ ['.', '.'] := by
      intro heq
      have hsame : stem ++ ['.'] = ['.'] ++ ['.'] := heq
      exact hup (List.append_cancel_right hsame)
    rw [setExtension_append hpre hlast hmeant hforward, splitName_append hstem List.not_mem_nil,
      if_neg hup]

/-- What is compiled from a script has its stem, and the extension of compiled scripts, whatever the
letters of the extension are that it has itself. -/
theorem ofOutput_append (hpre : Opens '/' pre) (hslash : '/' ∉ stem) (hstem : stem ≠ [])
    (hext : Marks ext) :
    ofOutput (String.ofList (pre ++ (stem ++ '.' :: ext)))
      = String.ofList (pre ++ outputName stem) := by
  have hname := hext.slash_not_mem hslash
  have hdot : '.' ∉ ext := hext.not_mem (by decide)
  have hscript : isScript (String.ofList (pre ++ (stem ++ '.' :: ext))) = true := by
    rw [isScript, extension?_append hpre hname hstem hext.ne_nil hdot, Option.any_some,
      sameLetters_sourceExtension, String.toList_ofList]
    exact hext
  rw [ofOutput, if_pos hscript, withExtension_append hpre hname hstem hext.ne_nil hdot]
  rfl

theorem isScript_of_fileName?_eq_none (h : fileName? path = none) : isScript path = false := by
  rw [isScript, extension?, h]
  rfl

/-- A name with the extension of compiled scripts is not that of a script. -/
theorem isScript_append_outputExtension (hpre : Opens '/' pre) (hstem : '/' ∉ stem) :
    isScript (String.ofList (pre ++ (stem ++ '.' :: outputExtension.toList))) = false := by
  have hname : '/' ∉ stem ++ '.' :: outputExtension.toList := by
    simp only [List.mem_append, not_or]
    exact ⟨hstem, by decide⟩
  refine Bool.eq_false_iff.mpr fun h => ?_
  obtain ⟨stem', ext, heq, -, hext⟩ :=
    exists_of_isScript hpre hname (isEmptyPart_append stem (by decide)) h
  obtain ⟨-, htail⟩ := List.append_inj' heq (by simp [hext.length_eq, outputExtension])
  obtain ⟨-, rfl⟩ := List.cons.inj htail
  revert hext
  rw [Marks]
  decide

/-- The path of a compiled script is not that of a script. -/
theorem isScript_ofOutput (source : String) : isScript (ofOutput source) = false := by
  have hset (path : String) : isScript (setExtension path outputExtension) = false := by
    rcases setExtension_cases path outputExtension with ⟨hnone, heq⟩ | ⟨pre, stem, hpre, hstem, heq⟩
    · rw [heq]
      exact isScript_of_fileName?_eq_none hnone
    · rw [heq]
      exact isScript_append_outputExtension hpre hstem
  rw [ofOutput]
  split
  · rw [withExtension]
    split
    · exact hset _
    · exact hset _
  · obtain ⟨pre, stem, hsource, hpre, hstem⟩ := exists_opens '/' source.toList
    have heq : source ++ "." ++ outputExtension
        = String.ofList (pre ++ (stem ++ '.' :: outputExtension.toList)) := by
      rw [← String.toList_inj]
      simp [String.toList_append, hsource, List.append_assoc]
    rw [heq]
    exact isScript_append_outputExtension hpre hstem

end Path

end Nss
