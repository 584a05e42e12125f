/-
# Scripts of one directory

What is compiled from the scripts below a directory lies next to them.  Two of them are written to
one path exactly if they are twins: if their paths differ only in the case of the letters of their
extensions.  All others are there at the end, and none is written to the path of a script.

    d / a.NSS    compiled    d / a.ncs    lost
    d / a.nss    compiled    d / a.ncs    there at the end
    d / b.nss    compiled    d / b.ncs    there at the end

Each script is compiled in the session and with the files that those before it leave, so what a run
does follows from what one script does (`compileFile_ended`) by induction on the scripts
(`read_reached`).
-/
import Nss.Batch
import Nss.Proofs.Files.Apart
import Nss.Proofs.Files.Outputs
import Nss.Proofs.Session.Alone
import Nss.Proofs.Session.Compiled

namespace Nss

open Steps

namespace Path

/-- Two paths that differ at most in the case of the letters of their extensions, which are those of
scripts. -/
def Twins (path path' : String) : Prop :=
  ∃ stem ext ext', path = stem ++ "." ++ ext ∧ path' = stem ++ "." ++ ext' ∧
    Text.sameLetters ext sourceExtension = true ∧ Text.sameLetters ext' sourceExtension = true

end Path

/-! ## Scripts below a directory -/

namespace FileTree

variable {t t' : FileTree} {root path path' : String} {above above' : List String}
  {stem stem' ext ext' : List Char} {content : Bytes}

/-- A script that lies below a directory: the directories on the way to it, and its name. -/
structure Found (root path : String) (above : List String) (stem ext : List Char) : Prop where
  path : path = Path.join (above.foldl Path.join root) (String.ofList (stem ++ '.' :: ext))
  root : root ≠ ""
  above : ∀ name ∈ above, Plain name
  noSlash : '/' ∉ stem
  stem : stem ≠ []
  ext : Path.Marks ext

namespace Found

theorem dir_ne_empty (h : Found root path above stem ext) : above.foldl Path.join root ≠ "" :=
  foldl_join_ne_empty above h.root h.above

theorem slash_not_mem_outputName (h : Found root path above stem ext) :
    '/' ∉ Path.outputName stem := by
  rw [Path.outputName]
  split
  · decide
  · simp only [List.mem_append, not_or]
    exact ⟨h.noSlash, by decide⟩

/-- The path of the script as a text, and that of what is compiled from it. -/
theorem exists_text (h : Found root path above stem ext) :
    ∃ cs, path = String.ofList (cs ++ ['/'] ++ (stem ++ '.' :: ext)) ∧
      Path.ofOutput path = String.ofList (cs ++ ['/'] ++ Path.outputName stem) ∧
      Path.ofOutput path
        = Path.join (above.foldl Path.join root) (String.ofList (Path.outputName stem)) := by
  obtain ⟨cs, hcs⟩ := Path.exists_join_eq h.dir_ne_empty
  have hpath : path = String.ofList (cs ++ ['/'] ++ (stem ++ '.' :: ext)) :=
    h.path.trans (hcs _ (h.ext.slash_not_mem h.noSlash))
  have houtput := Path.ofOutput_append (Text.opens_append_separator cs) h.noSlash h.stem h.ext
  rw [← hpath] at houtput
  exact ⟨cs, hpath, houtput, houtput.trans (hcs _ h.slash_not_mem_outputName).symm⟩

/-- Nothing can be written for a script whose stem is a dot. -/
theorem stem_ne_dot (h : Found root path above stem ext)
    (hwrite : t.write (Path.ofOutput path) content = .ok t') : stem ≠ ['.'] := by
  rintro rfl
  obtain ⟨cs, -, houtput, -⟩ := h.exists_text
  obtain ⟨origin, here, parts, name, es, hleads, -⟩ := write_eq_ok hwrite
  obtain ⟨-, -, -, hroute⟩ := start_eq_ok.mp hleads.start
  obtain ⟨origin', parts', hback, -, -⟩ :=
    @route_append_cons (Path.outputName ['.']) (by decide) cs
  have htext : (Path.ofOutput path).toList = cs ++ '/' :: Path.outputName ['.'] := by
    rw [houtput, String.toList_ofList, List.append_assoc]
    rfl
  rw [htext, hback] at hroute
  obtain ⟨-, hlast⟩ := List.append_inj' (Prod.mk.inj hroute).2 rfl
  exact hleads.named.2 (List.singleton_inj.mp hlast)

theorem plain_outputName (h : Found root path above stem ext) (hdot : stem ≠ ['.']) :
    Plain (String.ofList (Path.outputName stem)) where
  noSlash := by
    rw [String.toList_ofList]
    exact h.slash_not_mem_outputName
  meant := by
    rw [String.toList_ofList, Path.outputName, if_neg hdot]
    exact Path.isEmptyPart_append stem (by decide)
  forward := by
    rw [String.toList_ofList, Path.outputName, if_neg hdot]
    intro heq
    have hlength := congrArg List.length heq
    have hext : Path.outputExtension.toList.length = 3 := by decide
    simp only [List.length_append, List.length_cons, List.length_nil, hext] at hlength
    omega

/-- What is compiled from a script lies where it does, with another name. -/
theorem place_ofOutput (h : Found root path above stem ext) (hdot : stem ≠ ['.']) :
    place (Path.ofOutput path)
      = (place (above.foldl Path.join root)).child (String.ofList (Path.outputName stem)) := by
  obtain ⟨-, -, -, hjoin⟩ := h.exists_text
  rw [hjoin, place_join h.dir_ne_empty (h.plain_outputName hdot)]

/-- Two scripts for which one place is written to are twins. -/
theorem twins_of_place (h : Found root path above stem ext)
    (h' : Found root path' above' stem' ext') (hdot : stem ≠ ['.']) (hdot' : stem' ≠ ['.'])
    (hplace : place (Path.ofOutput path) = place (Path.ofOutput path')) :
    Path.Twins path path' := by
  rw [h.place_ofOutput hdot, h'.place_ofOutput hdot', Location.child_inj,
    String.ofList_inj] at hplace
  obtain ⟨hdir, hname⟩ := hplace
  obtain rfl := place_foldl_join_inj h.root h.above h'.above hdir
  rw [Path.outputName, Path.outputName, if_neg hdot, if_neg hdot'] at hname
  obtain rfl := List.append_cancel_right hname
  obtain ⟨cs, hcs⟩ := Path.exists_join_eq h.dir_ne_empty
  have htext {ext : List Char} (hext : Path.Marks ext) :
      Path.join (above.foldl Path.join root) (String.ofList (stem ++ '.' :: ext))
        = String.ofList (cs ++ ['/'] ++ stem) ++ "." ++ String.ofList ext := by
    rw [hcs _ (hext.slash_not_mem h.noSlash), ← String.toList_inj]
    simp [String.toList_append, List.append_assoc]
  refine ⟨_, _, _, h.path.trans (htext h.ext), h'.path.trans (htext h'.ext), ?_, ?_⟩
  · rw [Path.sameLetters_sourceExtension, String.toList_ofList]
    exact h.ext
  · rw [Path.sameLetters_sourceExtension, String.toList_ofList]
    exact h'.ext

/-- For twins, one path is written to. -/
theorem ofOutput_eq_of_twins (h : Found root path above stem ext) (htwins : Path.Twins path path') :
    Path.ofOutput path = Path.ofOutput path' := by
  obtain ⟨base, e, e', hpath, hpath', he, he'⟩ := htwins
  rw [Path.sameLetters_sourceExtension] at he he'
  obtain ⟨cs, htext, houtput, -⟩ := h.exists_text
  have hbase : base.toList = cs ++ ['/'] ++ stem := by
    have heq := congrArg String.toList (hpath.symm.trans htext)
    simp only [String.toList_append, String.toList_ofList] at heq
    have heq' : (base.toList ++ ['.']) ++ e.toList = (cs ++ ['/'] ++ stem ++ ['.']) ++ ext := by
      simpa [List.append_assoc] using heq
    obtain ⟨hleft, -⟩ := List.append_inj' heq' (he.length_eq.trans h.ext.length_eq.symm)
    exact List.append_cancel_right hleft
  have htext' : path' = String.ofList (cs ++ ['/'] ++ (stem ++ '.' :: e'.toList)) := by
    rw [hpath', ← String.toList_inj, String.toList_append, String.toList_append, hbase]
    simp [List.append_assoc]
  rw [houtput, htext', Path.ofOutput_append (Text.opens_append_separator cs) h.noSlash h.stem he']

end Found

theorem mem_sourcesIn : path ∈ Batch.sourcesIn t root ↔
    path ∈ t.below root ∧ Path.isScript path = true := by
  rw [Batch.sourcesIn, List.mem_mergeSort, List.mem_filter]

/-- The scripts below a directory are given by different paths. -/
theorem Orderly.nodup_sourcesIn (h : t.Orderly) (root : String) : (Batch.sourcesIn t root).Nodup :=
  (List.mergeSort_perm _ _).nodup_iff.mpr ((h.nodup_below root).filter _)

/-- A script lies below the directory, unless it is all that there is. -/
theorem Orderly.exists_found (ht : t.Orderly) (h : path ∈ Batch.sourcesIn t root)
    (h' : path' ∈ Batch.sourcesIn t root) (hne : path ≠ path') :
    ∃ above stem ext, Found root path above stem ext := by
  obtain ⟨hbelow, hscript⟩ := mem_sourcesIn.mp h
  obtain ⟨hroot, names, hplain, rfl, hnil⟩ := ht.exists_names hbelow
  rcases List.eq_nil_or_concat names with rfl | ⟨above, name, rfl⟩
  · exfalso
    have hbelow' := (mem_sourcesIn.mp h').1
    rw [hnil rfl] at hbelow'
    exact hne (List.mem_singleton.mp hbelow').symm
  · rw [List.concat_eq_append] at hplain hscript ⊢
    obtain ⟨habove, hname⟩ := List.forall_mem_append.mp hplain
    have hname := hname name List.mem_cons_self
    rw [List.foldl_append, List.foldl_cons, List.foldl_nil] at hscript ⊢
    obtain ⟨cs, hcs⟩ := Path.exists_join_eq (foldl_join_ne_empty above hroot habove)
    have hjoin := hcs name.toList hname.noSlash
    rw [String.ofList_toList] at hjoin
    rw [hjoin] at hscript
    obtain ⟨stem, ext, hsplit, hstem, hext⟩ := Path.exists_of_isScript
      (Text.opens_append_separator cs) hname.noSlash hname.meant hscript
    refine ⟨above, stem, ext, ?_, hroot, habove, ?_, hstem, hext⟩
    · rw [← hsplit, String.ofList_toList]
    · exact fun hmem => hname.noSlash (hsplit ▸ List.mem_append_left _ hmem)

end FileTree

/-! ## One script -/

namespace Session

variable {s : Session} {files : FileTree} {path : String} {source : Bytes}

/-- Nothing is asked for about where outputs are written. -/
structure Beside (s : Session) : Prop where
  output : s.options.output = none
  outputDir : s.options.outputDir = none

/-- Where the units are searched that a script includes. -/
def fileLoader (s : Session) (files : FileTree) (path : String) : Loader :=
  .ofDirs files ((match Path.parent? path with
    | none | some "" => "."
    | some dir => dir) :: s.options.includeDirs)

theorem ofScript_of_isScript (h : Path.isScript path = true) : Path.ofScript path = path := by
  rw [Path.isScript, Option.any_eq_true] at h
  obtain ⟨ext, hext, -⟩ := h
  rw [Path.ofScript, hext]
  rfl

theorem Beside.derivedOutput_eq (h : s.Beside) (path : String) :
    s.derivedOutput path = Path.ofOutput path := by
  rw [derivedOutput, h.outputDir]

theorem Beside.compileFile_eq (h : s.Beside) (hscript : Path.isScript path = true)
    (hread : Loader.readSource files path = .ok source) :
    s.compileFile files path = s.compileSource files path source (s.fileLoader files path)
      (some (Path.ofOutput path)) := by
  unfold compileFile
  dsimp only
  rw [ofScript_of_isScript hscript, hread, h.derivedOutput_eq]
  rfl

theorem compileFile_eq_error {e : Error}
    (hread : Loader.readSource files (Path.ofScript path) = .error e) :
    s.compileFile files path = (.error e, s, files) := by
  unfold compileFile
  dsimp only
  rw [hread]

theorem options_compileFile (s : Session) (files : FileTree) (path : String) :
    (s.compileFile files path).2.1.options = s.options := by
  unfold compileFile
  dsimp only
  split
  · rfl
  · rw [compileSource_session]

theorem Beside.compileFile (h : s.Beside) (files : FileTree) (path : String) :
    (s.compileFile files path).2.1.Beside := by
  have hoptions := s.options_compileFile files path
  exact ⟨by rw [hoptions]; exact h.output, by rw [hoptions]; exact h.outputDir⟩

/-- A report says that a script was compiled and written next to its source. -/
structure Makes (s : Session) (files : FileTree) (path : String) (report : Report)
    (artifact : Artifact) : Prop where
  output : report.output = some (Path.ofOutput path)
  compiles : ∃ source pass, Loader.readSource files path = .ok source ∧
    s.Compiles files path source (s.fileLoader files path) (some (Path.ofOutput path)) report pass
      artifact

/-- What becomes of a script and of the files: either it is compiled, and the files are those before
with the output among them, or the files stay as they are. -/
inductive Ended (s : Session) (files : FileTree) (path : String) : Report → FileTree → Prop
  | written {report : Report} {artifact : Artifact} {files' : FileTree} :
      report.status = .compiled → s.Makes files path report artifact →
      files.write (Path.ofOutput path) artifact.bytes = .ok files' →
      Ended s files path report files'
  | unwritten {report : Report} : report.status ≠ .compiled → Ended s files path report files

/-- A main script that is reported as compiled was written. -/
theorem write_of_serialize_compiled {trace : List Stage} {pass : Pass} {outputPath : String}
    (h : s.Beside)
    (hcompiled : (s.serialize files trace pass (some outputPath)).1.status = .compiled) :
    (s.serialize files trace pass (some outputPath)).1.output = some outputPath ∧
      ∃ artifact i, Program.assemble pass.symbols pass.unit = .ok artifact i ∧
        files.write outputPath artifact.bytes
          = .ok (s.serialize files trace pass (some outputPath)).2 := by
  rw [serialize, Program.write, h.output] at hcompiled ⊢
  cases hassemble : Program.assemble pass.symbols pass.unit with
  | error e i =>
      rw [hassemble] at hcompiled
      cases hcompiled
  | ok artifact i =>
      rw [hassemble] at hcompiled
      dsimp only [Option.none_or, Program.writeFile] at hcompiled ⊢
      cases hwrite : files.write outputPath artifact.bytes with
      | error cause =>
          rw [hwrite] at hcompiled
          cases hcompiled
      | ok files' => exact ⟨rfl, artifact, i, rfl, hwrite⟩

theorem Compiles.written_eq {loader : Loader} {outputPath : String} {report : Report} {pass : Pass}
    {artifact : Artifact} (h : s.Beside)
    (hreport : (s.compileSource files path source loader (some outputPath)).1 = .ok report)
    (hcompiled : report.status = .compiled)
    (hcompiles : s.Compiles files path source loader (some outputPath) report pass artifact) :
    report.output = some outputPath ∧ files.write outputPath artifact.bytes
      = .ok (s.compileSource files path source loader (some outputPath)).2.2 := by
  obtain ⟨first, trace, hfirst, hafter, -⟩ := hcompiles.main
  obtain ⟨i, hassemble⟩ := hcompiles.assembled
  have hrun := compileSource.eq_def s files path source loader (some outputPath)
  simp only [hfirst, Except.bind, hafter] at hrun
  rw [hrun] at hreport ⊢
  obtain rfl := Except.ok.inj hreport
  obtain ⟨houtput, artifact', i', hassemble', hwrite⟩ := write_of_serialize_compiled h hcompiled
  obtain ⟨rfl, -⟩ := EStateM.Result.ok.inj (hassemble.symm.trans hassemble')
  exact ⟨houtput, hwrite⟩

/-- A unit that is not reported as compiled leaves the files as they are. -/
theorem compileSource_files {loader : Loader} {outputPath : Option String}
    (h : ∀ report, (s.compileSource files path source loader outputPath).1 = .ok report →
      report.status ≠ .compiled) :
    (s.compileSource files path source loader outputPath).2.2 = files := by
  cases hreport : (s.compileSource files path source loader outputPath).1 with
  | ok report =>
      obtain ⟨-, last, -, -, haccounts⟩ := compileSource_accounts hreport
      refine haccounts.untouched ?_
      rintro rfl
      exact h report hreport (Option.some.inj haccounts.status).symm
  | error e =>
      rw [compileSource] at hreport ⊢
      dsimp only at hreport ⊢
      split
      · rfl
      · rfl
      · next heq =>
          rw [heq] at hreport
          cases hreport

end Session

namespace Batch

variable {s : Session} {files : FileTree} {path : String} {paths : List String} {report : Report}
  {before after : List (String × Report)} {data : Bytes}

/-- The report on a script: one that is given up is reported as failed. -/
def reportOf (path : String) : Except Error Report → Report
  | .ok report => report
  | .error e => .aborted (IncludeKey.ofPath path) e

/-- What becomes of one script. -/
theorem compileFile_ended (h : s.Beside) (files : FileTree)
    (hscript : Path.isScript path = true) :
    s.Ended files path (reportOf path (s.compileFile files path).1)
      (s.compileFile files path).2.2 := by
  cases hread : Loader.readSource files path with
  | error e =>
      have hread' : Loader.readSource files (Path.ofScript path) = .error e := by
        rw [Session.ofScript_of_isScript hscript, hread]
      rw [Session.compileFile_eq_error hread']
      exact .unwritten nofun
  | ok source =>
      rw [h.compileFile_eq hscript hread]
      cases hreport : (s.compileSource files path source (s.fileLoader files path)
          (some (Path.ofOutput path))).1 with
      | error e =>
          rw [Session.compileSource_files (by rw [hreport]; nofun)]
          exact .unwritten nofun
      | ok report =>
          by_cases hcompiled : report.status = .compiled
          · obtain ⟨pass, artifact, hcompiles⟩ := Session.exists_compiles hreport hcompiled
            obtain ⟨houtput, hwrite⟩ := hcompiles.written_eq h hreport hcompiled
            exact .written hcompiled ⟨houtput, source, pass, hread, hcompiles⟩ hwrite
          · rw [Session.compileSource_files]
            · exact .unwritten hcompiled
            · intro report' hreport'
              obtain rfl := Except.ok.inj (hreport.symm.trans hreport')
              exact hcompiled

/-! ## One script after the other -/

/-- The session and the files that some scripts leave. -/
def reached (s : Session) (files : FileTree) (paths : List String) : Session × FileTree :=
  (compile s files paths).2

theorem compile_cons (s : Session) (files : FileTree) (path : String) (rest : List String) :
    (compile s files (path :: rest)).1.reports
        = (path, reportOf path (s.compileFile files path).1)
          :: (compile (s.compileFile files path).2.1 (s.compileFile files path).2.2
            rest).1.reports ∧
      reached s files (path :: rest)
        = reached (s.compileFile files path).2.1 (s.compileFile files path).2.2 rest := by
  rw [reached, reached, compile]
  generalize s.compileFile files path = made
  obtain ⟨outcome, s', files'⟩ := made
  cases outcome with
  | ok report | error e => exact ⟨rfl, rfl⟩

theorem map_fst_reports (paths : List String) : ∀ (s : Session) (files : FileTree),
    (compile s files paths).1.reports.map Prod.fst = paths := by
  induction paths with
  | nil => exact fun s files => rfl
  | cons path rest ih =>
      intro s files
      rw [(compile_cons s files path rest).1, List.map_cons, ih]

/-- Scripts are compiled one after the other: those before one leave the session and the files that
it is compiled with, and it leaves those that the scripts behind it are compiled with. -/
theorem reports_eq_append (before : List (String × Report)) :
    ∀ {s : Session} {files : FileTree} {paths : List String},
      (compile s files paths).1.reports = before ++ (path, report) :: after →
      ∃ s₁ files₁ s₂ files₂ outcome, reached s files (before.map Prod.fst) = (s₁, files₁) ∧
        s₁.compileFile files₁ path = (outcome, s₂, files₂) ∧ report = reportOf path outcome ∧
        after = (compile s₂ files₂ (after.map Prod.fst)).1.reports ∧
        reached s files paths = reached s₂ files₂ (after.map Prod.fst) := by
  induction before with
  | nil =>
      intro s files paths h
      cases paths with
      | nil => cases h
      | cons first rest =>
          obtain ⟨hreports, hreached⟩ := compile_cons s files first rest
          rw [hreports] at h
          generalize hrun : s.compileFile files first = run at h hreached
          obtain ⟨outcome, s₂, files₂⟩ := run
          obtain ⟨hmade, hafter⟩ := List.cons.inj h
          obtain ⟨rfl, hreport⟩ := Prod.mk.inj hmade
          have hrest : after.map Prod.fst = rest := by rw [← hafter, map_fst_reports]
          refine ⟨s, files, s₂, files₂, outcome, rfl, hrun, hreport.symm, ?_, ?_⟩
          · rw [hrest, hafter]
          · rw [hrest, hreached]
  | cons made before ih =>
      intro s files paths h
      cases paths with
      | nil => cases h
      | cons first rest =>
          obtain ⟨hreports, hreached⟩ := compile_cons s files first rest
          rw [hreports] at h
          obtain ⟨rfl, hrest⟩ := List.cons.inj h
          rw [List.map_cons, hreached, (compile_cons s files first (before.map Prod.fst)).2]
          exact ih hrest

theorem beside_reached (h : s.Beside) (files : FileTree) (paths : List String) :
    (reached s files paths).1.Beside := by
  induction paths generalizing s files with
  | nil => exact h
  | cons path rest ih =>
      rw [(compile_cons s files path rest).2]
      exact ih (h.compileFile files path) _

/-- A file is read as before when the scripts that are compiled are written to other places. -/
theorem read_reached (h : s.Beside) {other : String} (hread : files.read other = .ok data)
    (hscripts : ∀ path ∈ paths, Path.isScript path = true)
    (hapart : ∀ made ∈ (compile s files paths).1.reports, made.2.status = .compiled →
      FileTree.place other ≠ FileTree.place (Path.ofOutput made.1)) :
    (reached s files paths).2.read other = .ok data := by
  induction paths generalizing s files with
  | nil => exact hread
  | cons path rest ih =>
      obtain ⟨hreports, hreached⟩ := compile_cons s files path rest
      obtain ⟨hscript, hrest⟩ := List.forall_mem_cons.mp hscripts
      rw [hreports] at hapart
      obtain ⟨hfirst, hapart⟩ := List.forall_mem_cons.mp hapart
      have hbeside := h.compileFile files path
      have hended := compileFile_ended h files hscript
      rw [hreached]
      dsimp only at hfirst
      generalize s.compileFile files path = run at hended hfirst hapart hbeside ⊢
      obtain ⟨outcome, s', files'⟩ := run
      refine ih hbeside ?_ hrest hapart
      dsimp only at hended hfirst ⊢
      generalize reportOf path outcome = report at hended hfirst
      cases hended with
      | written hcompiled hmakes hwrite =>
          exact FileTree.read_write_of_ne hread hwrite (hfirst hcompiled)
      | unwritten hnot => exact hread

/-- Behind the report on a script that was compiled: what was assembled from it was written next to
it, and what the scripts behind it do starts from there. -/
theorem exists_makes (h : s.Beside) (hscripts : ∀ path ∈ paths, Path.isScript path = true)
    (hreports : (compile s files paths).1.reports = before ++ (path, report) :: after)
    (hcompiled : report.status = .compiled) :
    let (s₁, files₁) := reached s files (before.map Prod.fst)
    ∃ artifact s₂ files₂, s₁.Makes files₁ path report artifact ∧
      files₁.write (Path.ofOutput path) artifact.bytes = .ok files₂ ∧ s₂.Beside ∧
      after = (compile s₂ files₂ (after.map Prod.fst)).1.reports ∧
      reached s files paths = reached s₂ files₂ (after.map Prod.fst) := by
  have hpaths := map_fst_reports paths s files
  rw [hreports, List.map_append, List.map_cons] at hpaths
  have hscript : Path.isScript path = true :=
    hscripts path (hpaths ▸ List.mem_append_right _ List.mem_cons_self)
  obtain ⟨s₁, files₁, s₂, files₂, outcome, hbefore, hrun, rfl, hafter, hreached⟩ :=
    reports_eq_append before hreports
  have hbeside := beside_reached h files (before.map Prod.fst)
  rw [hbefore] at hbeside ⊢
  have hended := compileFile_ended hbeside files₁ hscript
  have hbeside' := hbeside.compileFile files₁ path
  rw [hrun] at hended hbeside'
  generalize reportOf path outcome = report at hended hcompiled
  cases hended with
  | written _ hmakes hwrite => exact ⟨_, s₂, files₂, hmakes, hwrite, hbeside', hafter, hreached⟩
  | unwritten hnot => exact absurd hcompiled hnot

theorem isScript_of_mem_sourcesIn {dir : String} (h : path ∈ sourcesIn files dir) :
    Path.isScript path = true :=
  (FileTree.mem_sourcesIn.mp h).2

/-- A script of a directory that was compiled is reported with its output, and was written. -/
theorem output_of_mem {dir : String} (h : s.Beside)
    {made : String × Report} (hmade : made ∈ (compileDirectory s files dir).1.reports)
    (hcompiled : made.2.status = .compiled) :
    made.1 ∈ sourcesIn files dir ∧ made.2.output = some (Path.ofOutput made.1) ∧
      ∃ (t t' : FileTree) (content : Bytes), t.write (Path.ofOutput made.1) content = .ok t' := by
  obtain ⟨path, report⟩ := made
  obtain ⟨before, after, hreports⟩ := List.append_of_mem hmade
  obtain ⟨artifact, s₂, files₂, hmakes, hwrite, -⟩ :=
    exists_makes h (fun _ => isScript_of_mem_sourcesIn) hreports hcompiled
  refine ⟨?_, hmakes.output, _, files₂, _, hwrite⟩
  have hpaths := map_fst_reports (sourcesIn files dir) s files
  rw [← hpaths]
  exact List.mem_map_of_mem hmade

/-- Two scripts of a directory for which one place was written to are twins. -/
theorem twins_of_place {dir : String} (h : s.Beside) (hfiles : files.Orderly)
    {made other : String × Report} (hmade : made ∈ (compileDirectory s files dir).1.reports)
    (hother : other ∈ (compileDirectory s files dir).1.reports)
    (hcompiled : made.2.status = .compiled) (hcompiled' : other.2.status = .compiled)
    (hne : made.1 ≠ other.1)
    (hplace : FileTree.place (Path.ofOutput made.1) = FileTree.place (Path.ofOutput other.1)) :
    Path.Twins made.1 other.1 := by
  obtain ⟨hmem, -, t, t', content, hwrite⟩ := output_of_mem h hmade hcompiled
  obtain ⟨hmem', -, u, u', content', hwrite'⟩ := output_of_mem h hother hcompiled'
  obtain ⟨above, stem, ext, hfound⟩ := hfiles.exists_found hmem hmem' hne
  obtain ⟨above', stem', ext', hfound'⟩ := hfiles.exists_found hmem' hmem hne.symm
  exact hfound.twins_of_place hfound' (hfound.stem_ne_dot hwrite) (hfound'.stem_ne_dot hwrite')
    hplace

/-- What was assembled from a script of a directory is there at the end, unless a twin of it was
compiled later. -/
theorem read_compileDirectory {dir : String} (h : s.Beside) (hfiles : files.Orderly)
    (hreports : (compileDirectory s files dir).1.reports = before ++ (path, report) :: after)
    (hcompiled : report.status = .compiled)
    (halone : ∀ later ∈ after, later.2.status = .compiled → ¬ Path.Twins path later.1) :
    let (s₁, files₁) := reached s files (before.map Prod.fst)
    ∃ artifact, s₁.Makes files₁ path report artifact ∧
      (compileDirectory s files dir).2.2.read (Path.ofOutput path) = .ok artifact.bytes := by
  obtain ⟨artifact, s₂, files₂, hmakes, hwrite, hbeside, hafter, hreached⟩ :=
    exists_makes h (fun _ => isScript_of_mem_sourcesIn) hreports hcompiled
  refine ⟨artifact, hmakes, ?_⟩
  have hpaths : (compileDirectory s files dir).1.reports.map Prod.fst = sourcesIn files dir :=
    map_fst_reports _ s files
  have hmade : (path, report) ∈ (compileDirectory s files dir).1.reports :=
    hreports ▸ List.mem_append_right _ List.mem_cons_self
  have hlater : ∀ later ∈ after, later ∈ (compileDirectory s files dir).1.reports := fun _ hmem =>
    hreports ▸ List.mem_append_right _ (List.mem_cons_of_mem _ hmem)
  have hrun : (compileDirectory s files dir).2.2 = (reached s₂ files₂ (after.map Prod.fst)).2 :=
    congrArg Prod.snd hreached
  rw [hrun]
  refine read_reached hbeside (FileTree.read_write hwrite) ?_ ?_
  · intro path' hmem
    obtain ⟨later, hlast, rfl⟩ := List.mem_map.mp hmem
    exact isScript_of_mem_sourcesIn (hpaths ▸ List.mem_map_of_mem (hlater later hlast))
  · rw [← hafter]
    intro later hmem hcompiled' hplace
    refine halone later hmem hcompiled' ?_
    refine twins_of_place h hfiles hmade (hlater later hmem) hcompiled hcompiled' ?_ hplace
    -- no script is compiled twice
    intro heq
    have hnodup := hfiles.nodup_sourcesIn dir
    rw [← hpaths, hreports, List.map_append, List.map_cons] at hnodup
    have hnot := (List.nodup_cons.mp (List.nodup_append.mp hnodup).2.1).1
    exact hnot (heq ▸ List.mem_map_of_mem hmem)

/-- What a session that writes next to the sources makes of the scripts below a directory: each of
them is reported on once, no output has the path of one of them, and two different scripts have the
same output exactly if they are twins.  What was assembled from a script is there at the end, unless
a twin of it was compiled later. -/
theorem compileDirectory_outputs (h : s.Beside) (hfiles : files.Orderly) (dir : String) :
    let sources := sourcesIn files dir
    let run := compileDirectory s files dir
    run.1.reports.map Prod.fst = sources ∧ sources.Nodup ∧
      (∀ made ∈ run.1.reports, made.2.status = .compiled →
        made.2.output = some (Path.ofOutput made.1) ∧ Path.ofOutput made.1 ∉ sources) ∧
      (∀ made ∈ run.1.reports, ∀ other ∈ run.1.reports, made.2.status = .compiled →
        other.2.status = .compiled → made.1 ≠ other.1 →
          (made.2.output = other.2.output ↔ Path.Twins made.1 other.1)) ∧
      ∀ before path report after, run.1.reports = before ++ (path, report) :: after →
        report.status = .compiled →
        (∀ later ∈ after, later.2.status = .compiled → ¬ Path.Twins path later.1) →
          let (s₁, files₁) := reached s files (before.map Prod.fst)
          ∃ artifact, s₁.Makes files₁ path report artifact ∧
            run.2.2.read (Path.ofOutput path) = .ok artifact.bytes := by
  intro sources run
  refine ⟨map_fst_reports sources s files, hfiles.nodup_sourcesIn dir, ?_, ?_, ?_⟩
  · intro made hmade hcompiled
    refine ⟨(output_of_mem h hmade hcompiled).2.1, fun hmem => ?_⟩
    have hscript := isScript_of_mem_sourcesIn hmem
    rw [Path.isScript_ofOutput] at hscript
    cases hscript
  · intro made hmade other hother hcompiled hcompiled' hne
    obtain ⟨hmem, houtput, -⟩ := output_of_mem h hmade hcompiled
    obtain ⟨hmem', houtput', -⟩ := output_of_mem h hother hcompiled'
    rw [houtput, houtput', Option.some.injEq]
    constructor
    · intro heq
      exact twins_of_place h hfiles hmade hother hcompiled hcompiled' hne (congrArg _ heq)
    · intro htwins
      obtain ⟨above, stem, ext, hfound⟩ := hfiles.exists_found hmem hmem' hne
      exact hfound.ofOutput_eq_of_twins htwins
  · intro before path report after hreports hcompiled halone
    exact read_compileDirectory h hfiles hreports hcompiled halone

/-! ### Two scripts with different stems, and two that are twins -/

/-- A script that sets a variable. -/
def setsTo (n : Nat) : Bytes := Bytes.ofText s!"void main() \x7b int x = {n}; \x7d"

/-- Two scripts in one directory. -/
def twoScripts (name name' : String) : FileTree :=
  .ofRoot (.dir [("d", .dir [(name, .file (setsTo 1)), (name', .file (setsTo 2))])])

theorem orderly_twoScripts {name name' : String} (hname : FileTree.Plain name)
    (hname' : FileTree.Plain name') (hne : name ≠ name') : (twoScripts name name').Orderly where
  root := by
    have hinner : (FileNode.dir [(name, .file (setsTo 1)), (name', .file (setsTo 2))]).Orderly :=
      ⟨by simpa using hne, hname, trivial, hname', trivial, trivial⟩
    exact ⟨List.nodup_singleton _, ⟨by decide, by decide, by decide⟩, hinner, trivial⟩
  outside := nofun

/-- The scripts of such a directory, if their names are in order. -/
theorem sourcesIn_twoScripts {name name' path path' : String}
    (hbelow : ((twoScripts name name').below "d").filter Path.isScript = [path, path'])
    (hle : Path.le path path' = true) : sourcesIn (twoScripts name name') "d" = [path, path'] := by
  rw [sourcesIn, hbelow]
  exact List.mergeSort_of_pairwise (by simpa using hle)

/-- What is seen of the reports on some scripts. -/
def seen (b : Batch) : List (String × Status × Option String) :=
  b.reports.map fun made => (made.1, made.2.status, made.2.output)

/-- A session that writes next to the sources. -/
def plainSession : Session := .start Session.plainOptions scriptFrontEnd

/-- Two scripts with different stems are both there at the end. -/
theorem compileDirectory_outputs_stems :
    let files := twoScripts "a.nss" "b.nss"
    let run := compileDirectory plainSession files "d"
    seen run.1 = [("d/a.nss", .compiled, some "d/a.ncs"), ("d/b.nss", .compiled, some "d/b.ncs")] ∧
      ∃ report artifact, plainSession.Makes files "d/a.nss" report artifact ∧
        run.2.2.read "d/a.ncs" = .ok artifact.bytes := by
  intro files run
  have hfiles : files.Orderly :=
    orderly_twoScripts ⟨by decide, by decide, by decide⟩ ⟨by decide, by decide, by decide⟩
      (by decide)
  have hsources : sourcesIn files "d" = ["d/a.nss", "d/b.nss"] :=
    sourcesIn_twoScripts (by decide +kernel) (by decide +kernel)
  have hseen : seen run.1
      = [("d/a.nss", .compiled, some "d/a.ncs"), ("d/b.nss", .compiled, some "d/b.ncs")] := by
    show seen (compile plainSession files (sourcesIn files "d")).1 = _
    rw [hsources]
    decide +kernel
  obtain ⟨-, -, -, htwins, hkept⟩ :=
    compileDirectory_outputs (s := plainSession) ⟨rfl, rfl⟩ hfiles "d"
  obtain ⟨made, rest, hreports, hmade, hrest⟩ := List.map_eq_cons_iff.mp hseen
  obtain ⟨other, rest, rfl, hother, hnil⟩ := List.map_eq_cons_iff.mp hrest
  obtain rfl := List.map_eq_nil_iff.mp hnil
  obtain ⟨path, report⟩ := made
  obtain ⟨path', report'⟩ := other
  simp only [Prod.mk.injEq] at hmade hother
  obtain ⟨rfl, hcompiled, houtput⟩ := hmade
  obtain ⟨rfl, hcompiled', houtput'⟩ := hother
  have hmem : ("d/a.nss", report) ∈ run.1.reports := hreports ▸ List.mem_cons_self
  have hmem' : ("d/b.nss", report') ∈ run.1.reports :=
    hreports ▸ List.mem_cons_of_mem _ List.mem_cons_self
  have hapart : ¬ Path.Twins "d/a.nss" "d/b.nss" := by
    intro h
    have hpaths : "d/a.nss" ≠ "d/b.nss" := by decide
    have heq := (htwins _ hmem _ hmem' hcompiled hcompiled' hpaths).mpr h
    rw [houtput, houtput'] at heq
    exact absurd (Option.some.inj heq) (by decide)
  obtain ⟨artifact, hmakes, hread⟩ := hkept [] "d/a.nss" report _ hreports hcompiled (by
    intro later hlater _
    rw [List.mem_singleton.mp hlater]
    exact hapart)
  refine ⟨hseen, report, artifact, hmakes, ?_⟩
  rwa [show Path.ofOutput "d/a.nss" = "d/a.ncs" by decide +kernel] at hread

/-- Two scripts that are twins are reported with one output, and what was assembled from the earlier
one is no longer there at the end. -/
theorem compileDirectory_twins :
    let files := twoScripts "a.NSS" "a.nss"
    let run := compileDirectory plainSession files "d"
    plainSession.Beside ∧ files.Orderly ∧ sourcesIn files "d" = ["d/a.NSS", "d/a.nss"] ∧
      seen run.1
        = [("d/a.NSS", .compiled, some "d/a.ncs"), ("d/a.nss", .compiled, some "d/a.ncs")] ∧
      run.2.2.read "d/a.ncs" ≠ (reached plainSession files ["d/a.NSS"]).2.read "d/a.ncs" := by
  intro files run
  have hsources : sourcesIn files "d" = ["d/a.NSS", "d/a.nss"] :=
    sourcesIn_twoScripts (by decide +kernel) (by decide +kernel)
  have hfiles : files.Orderly :=
    orderly_twoScripts ⟨by decide, by decide, by decide⟩ ⟨by decide, by decide, by decide⟩
      (by decide)
  have hrun : run = compile plainSession files ["d/a.NSS", "d/a.nss"] := by
    rw [← hsources]
    rfl
  rw [hrun]
  refine ⟨⟨rfl, rfl⟩, hfiles, hsources, by decide +kernel, fun h => ?_⟩
  have hkept := congrArg Except.toOption h
  revert hkept
  decide +kernel

end Batch

end Nss
