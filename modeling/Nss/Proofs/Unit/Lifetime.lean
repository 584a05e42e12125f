/-
# The life of an instance

An instance can be asked for many things, in any order, and each of them may fail.  What is left of
it only ever becomes less, but for the tables that are made once.

| | comes | goes |
| :-- | :-- | :-- |
| the source | with the instance | when it is destroyed, if it is a copy |
| the output window | with the instance | when it is taken, by an assembly as well, or at the end |
| the tables | once, while there are none | at the end |
| the buffer | whenever it is needed | when it is taken, by an assembly as well, or at the end |

`Turn` says this of one request (`turn`).  A thing that can be had only while the instance is ready for
it, and that leaves it not ready ever after, is had at most once (`Once.countP_le_one`); and what an
instance is left with at the end stays so (`run_lives`).
-/
import Nss.Proofs.Program.Linking
import Nss.Proofs.Unit.Records

namespace Nss

open Steps

/-! ## Memory that is refused -/

/-- The room that each of the tables is made with. -/
def OutputTables.regionSize : Nat := 256 * 1024

/-- Makes room for the output of a main script, where memory for each of the two tables may be
refused. -/
def Instance.finalizeWithin (globals functions : Memory) (i : Instance) (flags : UInt8) :
    Except Error Instance := do
  let i ← i.finalize flags
  if globals OutputTables.regionSize then
    if functions OutputTables.regionSize then return i
    else throw (.outOfMemory "function table" OutputTables.regionSize)
  else throw (.outOfMemory "globals table" OutputTables.regionSize)

namespace Program

/-- A script, if an output window could be given the room for it. -/
def withRoom (granted : Memory) (w : Window) (artifact : Artifact) : Except Error Artifact :=
  (w.growTo granted (max regionSize (artifact.bytes.length - w.length))).map fun _ => artifact

/-- Assembles a program, where memory may be refused to an output window that has to grow. -/
def assembleWithin (granted : Memory) (symbols : Symbols) : Assemble Artifact := do
  let window := (← get).output.getD ⟨[], 0⟩
  let artifact ← assemble symbols
  orStop (withRoom granted window artifact)

/-- Why a script is not written, if so. -/
def unwritten? (name path : Option String) (files : FileTree) (artifact : Artifact) : Option Error :=
  match name.or path with
  | none => some .noOutputName
  | some target =>
    match writeFile files target artifact.bytes with
    | .ok _ => none
    | .error e => some e

end Program

namespace Instance

/-! ## Requests -/

/-- What an instance can be asked for.  What is done with its buffer, its window or its tables while
they are in use may be anything. -/
inductive Request where
  | report (d : Diagnostic)
  | takeDiagnostics
  | markInclude
  | applyFlags (flags : UInt8)
  | define (function : Nat)
  | useBuffer (change : Buffer → Buffer)
  | takeBuffer
  /-- Takes over another instance. -/
  | absorb (granted : Memory) (child : Instance)
  /-- Is taken over by another instance. -/
  | join (granted : Memory) (parent : Instance)
  | useOutput (change : Window → Window)
  | takeOutput
  | useTables (change : OutputTables → OutputTables)
  | finalize (globals functions : Memory) (flags : UInt8)
  | assemble (granted : Memory) (symbols : Symbols)
  | write (granted : Memory) (symbols : Symbols) (name path : Option String) (files : FileTree)
  | destroy

/-- What comes of a request. -/
inductive Answer where
  | done
  | refused (e : Error)
  | diagnostics (ds : List Diagnostic)
  | buffer (b : Option Buffer)
  | window (w : Option Window)
  | tables (t : Option OutputTables)
  | finalized
  /-- A script was assembled.  If it should have been written and was not, there is an error. -/
  | assembled (artifact : Artifact) (unwritten : Option Error)
  /-- The instance is destroyed, and a copy of the source was given back or not. -/
  | destroyed (freed : Bool)

namespace Answer

/-- Whether the output of a main script was given room. -/
def isFinalized : Answer → Bool
  | finalized => true
  | _ => false

/-- Whether a script was assembled. -/
def isAssembled : Answer → Bool
  | assembled _ _ => true
  | _ => false

/-- Whether a copy of the source was given back. -/
def isFreed : Answer → Bool
  | destroyed freed => freed
  | _ => false

/-- Whether a request had nothing to give. -/
def isNothing : Answer → Bool
  | refused _ | buffer none | window none | tables none => true
  | _ => false

/-- The answer to a request that gives no more than that it was done. -/
def ofResult {α : Type} : Except Error α → Answer
  | .ok _ => done
  | .error e => refused e

/-- The answer to a request for a script, and what it leaves of the instance. -/
def ofAssembly (unwritten? : Artifact → Option Error) :
    EStateM.Result Error Instance Artifact → Answer × Instance
  | .ok artifact i => (assembled artifact (unwritten? artifact), i)
  | .error e i => (refused e, i)

end Answer

/-- Whether a request is for a buffer, an output window or tables. -/
def Request.isForStore : Request → Bool
  | useBuffer _ | takeBuffer | useOutput _ | takeOutput | useTables _ | finalize _ _ _
  | assemble _ _ | write _ _ _ _ _ => true
  | absorb _ child => child.buffer.isSome
  | _ => false

/-- What comes of a request, and the instance afterwards. -/
def perform (i : Instance) : Request → Answer × Instance
  | .report d => (.done, i.report d)
  | .takeDiagnostics => (.diagnostics i.takeDiagnostics.1, i.takeDiagnostics.2)
  | .markInclude => (.done, i.markInclude)
  | .applyFlags flags => (.done, i.applyFlags flags)
  | .define function => (.done, i.define function)
  | .useBuffer change =>
    match i.openBuffer with
    | .ok b => (.done, { i with buffer := some (change b) })
    | .error e => (.refused e, i)
  | .takeBuffer => (.buffer i.takeBuffer.1, i.takeBuffer.2)
  | .absorb granted child =>
    let (i', _, outcome) := i.absorb granted child
    (.ofResult outcome, i')
  | .join granted parent =>
    let (_, i', outcome) := parent.absorb granted i
    (.ofResult outcome, i')
  | .useOutput change =>
    match i.openOutput with
    | .ok w => (.done, { i with output := some (change w) })
    | .error e => (.refused e, i)
  | .takeOutput => (.window i.takeOutput.1, i.takeOutput.2)
  | .useTables change => (.tables i.tables, i.modifyTables change)
  | .finalize globals functions flags =>
    match i.finalizeWithin globals functions flags with
    | .ok i' => (.finalized, i')
    | .error e => (.refused e, i)
  | .assemble granted symbols =>
    Answer.ofAssembly (fun _ => none) (Program.assembleWithin granted symbols i)
  | .write granted symbols name path files =>
    Answer.ofAssembly (Program.unwritten? name path files) (Program.assembleWithin granted symbols i)
  | .destroy => (.destroyed i.destroy.1, i.destroy.2)

/-- The instance after some requests. -/
def run (i : Instance) (history : List Request) : Instance :=
  history.foldl (fun i r => (i.perform r).2) i

/-- What comes of some requests, one after the other. -/
def answers (i : Instance) : List Request → List Answer
  | [] => []
  | r :: later => (i.perform r).1 :: answers (i.perform r).2 later

/-! ## What one request can do -/

/-- An instance is in the same place of its life, or has less of what can be used up. -/
structure Wanes (i j : Instance) : Prop where
  debug : j.debug = i.debug
  source : j.source = i.source
  destroyed : j.isDestroyed = i.isDestroyed
  buffer : i.isDestroyed = true → i.buffer = none → j.buffer = none
  output : i.output = none → j.output = none
  tables : j.tables.isSome = i.tables.isSome

namespace Wanes

theorem refl (i : Instance) : i.Wanes i := ⟨rfl, rfl, rfl, fun _ h => h, id, rfl⟩

theorem trans {i j k : Instance} (h : i.Wanes j) (h' : j.Wanes k) : i.Wanes k where
  debug := h'.debug.trans h.debug
  source := h'.source.trans h.source
  destroyed := h'.destroyed.trans h.destroyed
  buffer := fun hi hb => h'.buffer (h.destroyed.trans hi) (h.buffer hi hb)
  output := fun ho => h'.output (h.output ho)
  tables := h'.tables.trans h.tables

/-- A change of something else. -/
theorem of_same {i j : Instance} (hdebug : j.debug = i.debug) (hsource : j.source = i.source)
    (hdestroyed : j.isDestroyed = i.isDestroyed) (hbuffer : j.buffer = i.buffer)
    (houtput : j.output = i.output) (htables : j.tables = i.tables) : i.Wanes j :=
  ⟨hdebug, hsource, hdestroyed, fun _ h => hbuffer.trans h, fun h => houtput.trans h, by rw [htables]⟩

theorem takeBuffer (i : Instance) : i.Wanes i.takeBuffer.2 :=
  ⟨rfl, rfl, rfl, fun _ _ => rfl, id, rfl⟩

theorem takeOutput (i : Instance) : i.Wanes i.takeOutput.2 :=
  ⟨rfl, rfl, rfl, fun _ h => h, fun _ => rfl, rfl⟩

theorem modifyTables (i : Instance) (change : OutputTables → OutputTables) :
    i.Wanes (i.modifyTables change) :=
  ⟨rfl, rfl, rfl, fun _ h => h, id, Option.isSome_map⟩

/-- Whatever becomes of a buffer that was opened. -/
theorem of_openBuffer {i : Instance} {b : Buffer} (h : i.openBuffer = .ok b) (b' : Buffer) :
    i.Wanes { i with buffer := some b' } := by
  refine ⟨rfl, rfl, rfl, fun hdestroyed => ?_, id, rfl⟩
  rw [openBuffer, if_pos hdestroyed] at h
  cases h

theorem absorb (granted : Memory) (i child : Instance) :
    i.Wanes (i.absorb granted child).1 ∧ child.Wanes (i.absorb granted child).2.1 := by
  rw [Instance.absorb]
  cases hchild : child.buffer with
  | none => exact ⟨.of_same rfl rfl rfl rfl rfl rfl, ⟨rfl, rfl, rfl, fun _ _ => rfl, id, rfl⟩⟩
  | some records =>
    have htaken : child.Wanes { child with buffer := none } := takeBuffer child
    cases hopen : i.openBuffer with
    | error e => exact ⟨.refl i, htaken⟩
    | ok b =>
      dsimp only
      cases b.appendBuffer granted records with
      | error e => exact ⟨.of_openBuffer hopen b, htaken⟩
      | ok b' =>
        have hjoined := of_openBuffer hopen b'
        exact ⟨hjoined.trans (.of_same rfl rfl rfl rfl rfl rfl),
          htaken.trans (.of_same rfl rfl rfl rfl rfl rfl)⟩

end Wanes

end Instance

/-! ## Assemblies -/

namespace Program

variable {symbols : Symbols} {i j : Instance} {artifact : Artifact}

/-- A step of an assembly only uses things up. -/
abbrev UsesUp {α : Type} (p : Assemble α) : Prop := Moves Instance.Wanes (fun _ => True) p

theorem usesUp_orStop {α : Type} (x : Except Error α) : UsesUp (orStop x) := by
  cases x with
  | ok a => exact .pure .refl a
  | error e => exact .throw .refl trivial

theorem usesUp_modify {change : Instance → Instance} (h : ∀ i : Instance, i.Wanes (change i)) :
    UsesUp (modify change) :=
  .of_ok (modify_apply change) h

theorem UsesUp.bind {α β : Type} {p : Assemble α} {k : α → Assemble β} (hp : UsesUp p)
    (hk : ∀ a, UsesUp (k a)) : UsesUp (p >>= k) :=
  Moves.bind_of (fun _ _ _ h h' => h.trans h') hp fun _ a _ _ => hk a

/-- Nothing is done behind an error. -/
theorem usesUp_throw {α β : Type} (e : Error) (k : α → Assemble β) :
    UsesUp ((throw e : Assemble α) >>= k) :=
  Moves.throw (α := β) Instance.Wanes.refl trivial

theorem usesUp_get {β : Type} {k : Instance → Assemble β} (hk : ∀ i, UsesUp (k i)) :
    UsesUp (get >>= k) :=
  UsesUp.bind (.get .refl) hk

theorem usesUp_encodeFunctions (globals : Nat) (placed ps : List Placed) :
    UsesUp (encodeFunctions globals placed ps) := by
  induction ps with
  | nil => exact .pure .refl _
  | cons p rest ih =>
    exact UsesUp.bind (usesUp_modify fun i => .modifyTables i _) fun _ =>
      UsesUp.bind (usesUp_orStop _) fun _ => ih

theorem usesUp_takeWindow : UsesUp takeWindow :=
  usesUp_get fun _ => UsesUp.bind (usesUp_orStop _) fun w =>
    UsesUp.bind (usesUp_modify .takeOutput) fun _ => .pure .refl w

theorem usesUp_assemble (symbols : Symbols) : UsesUp (assemble symbols) := by
  refine UsesUp.bind (usesUp_orStop _) fun entry => usesUp_get fun i => ?_
  dsimp only
  split
  · exact usesUp_throw _ _
  · refine UsesUp.bind (.of_ok takeRecords_apply .takeBuffer) fun records => ?_
    refine UsesUp.bind (usesUp_orStop _) fun reached => UsesUp.bind (usesUp_orStop _) fun placed => ?_
    refine UsesUp.bind (usesUp_orStop _) fun start => UsesUp.bind usesUp_takeWindow fun window => ?_
    refine UsesUp.bind (usesUp_modify fun i => .modifyTables i _) fun _ => ?_
    refine UsesUp.bind (usesUp_encodeFunctions _ _ _) fun _ => usesUp_get fun i => ?_
    cases i.tables with
    | none => exact .throw .refl trivial
    | some tables => exact UsesUp.bind (usesUp_orStop _) fun filled => .pure .refl _

theorem takeWindow_eq_ok {w : Window} (h : takeWindow i = .ok w j) :
    i.output = some w ∧ j = i.takeOutput.2 := by
  cases houtput : i.output with
  | some w' =>
    obtain ⟨rfl, rfl⟩ := EStateM.Result.ok.inj ((takeWindow_apply houtput).symm.trans h)
    exact ⟨rfl, rfl⟩
  | none =>
    obtain ⟨_, _, hstep, h⟩ := bind_eq_ok.mp h
    obtain ⟨rfl, rfl⟩ := EStateM.Result.ok.inj hstep
    obtain ⟨_, _, hstep, -⟩ := bind_eq_ok.mp h
    rw [Instance.openOutput, houtput] at hstep
    cases (orStop_eq_ok.mp hstep).1

/-- An assembly that comes off had tables and an output window, and leaves none of the latter. -/
theorem taken_of_assemble (h : assemble symbols i = .ok artifact j) :
    i.tables.isSome = true ∧ i.output.isSome = true ∧ j.output = none := by
  rw [assemble] at h
  obtain ⟨entry, _, hstep, h⟩ := bind_eq_ok.mp h
  obtain ⟨-, rfl⟩ := orStop_eq_ok.mp hstep
  obtain ⟨_, _, hstep, h⟩ := bind_eq_ok.mp h
  obtain ⟨rfl, rfl⟩ := EStateM.Result.ok.inj hstep
  split at h
  · cases h
  · next htables =>
    obtain ⟨records, _, hstep, h⟩ := bind_eq_ok.mp h
    obtain ⟨-, rfl⟩ := EStateM.Result.ok.inj hstep
    obtain ⟨reached, _, hstep, h⟩ := bind_eq_ok.mp h
    obtain ⟨-, rfl⟩ := orStop_eq_ok.mp hstep
    obtain ⟨placed, _, hstep, h⟩ := bind_eq_ok.mp h
    obtain ⟨-, rfl⟩ := orStop_eq_ok.mp hstep
    obtain ⟨start, _, hstep, h⟩ := bind_eq_ok.mp h
    obtain ⟨-, rfl⟩ := orStop_eq_ok.mp hstep
    obtain ⟨window, _, hstep, h⟩ := bind_eq_ok.mp h
    obtain ⟨houtput, rfl⟩ := takeWindow_eq_ok hstep
    -- from here on there is no window
    obtain ⟨_, _, hstep, h⟩ := bind_eq_ok.mp h
    obtain rfl := (EStateM.Result.ok.inj hstep).2
    obtain ⟨_, k, hstep, h⟩ := bind_eq_ok.mp h
    have hnone : k.output = none := ((usesUp_encodeFunctions _ _ _ _).1 _ _ hstep).output rfl
    obtain ⟨_, _, hstep, h⟩ := bind_eq_ok.mp h
    obtain ⟨rfl, rfl⟩ := EStateM.Result.ok.inj hstep
    refine ⟨by simpa [Option.isSome_iff_ne_none] using htables, Option.isSome_of_mem houtput, ?_⟩
    cases hmade : k.tables with
    | none =>
      rw [hmade] at h
      cases h
    | some tables =>
      rw [hmade] at h
      obtain ⟨filled, _, hstep, h⟩ := bind_eq_ok.mp h
      obtain ⟨-, rfl⟩ := orStop_eq_ok.mp hstep
      obtain ⟨-, rfl⟩ := EStateM.Result.ok.inj h
      exact hnone

theorem usesUp_assembleWithin (granted : Memory) (symbols : Symbols) :
    UsesUp (assembleWithin granted symbols) :=
  usesUp_get fun _ => UsesUp.bind (usesUp_assemble symbols) fun _ => usesUp_orStop _

theorem assemble_of_assembleWithin {granted : Memory}
    (h : assembleWithin granted symbols i = .ok artifact j) :
    ∃ made, assemble symbols i = .ok made j := by
  obtain ⟨_, _, hstep, h⟩ := bind_eq_ok.mp h
  obtain ⟨rfl, rfl⟩ := EStateM.Result.ok.inj hstep
  obtain ⟨made, k, hstep, h⟩ := bind_eq_ok.mp h
  obtain ⟨-, rfl⟩ := orStop_eq_ok.mp h
  exact ⟨made, hstep⟩

/-- Without tables, an assembly does nothing. -/
theorem assembleWithin_of_bare (granted : Memory) (symbols : Symbols) (h : i.tables = none) :
    ∃ e, assembleWithin granted symbols i = .error e i := by
  suffices hplain : ∃ e, assemble symbols i = .error e i by
    obtain ⟨e, he⟩ := hplain
    exact ⟨e, by rw [assembleWithin, bind_apply, get_apply]; exact bind_eq_error.mpr (.inl he)⟩
  cases hentry : symbols.entryPoint with
  | error e =>
    refine ⟨e, bind_eq_error.mpr (.inl ?_)⟩
    rw [hentry]
    rfl
  | ok entry =>
    refine ⟨.notFinalized, ?_⟩
    rw [assemble, bind_of_ok (orStop_eq_ok.mpr ⟨hentry, rfl⟩), bind_of_ok (get_apply i), h]
    rfl

end Program

namespace Instance

variable {i j : Instance} {r : Request} {a : Answer}

/-! ## Turns -/

/-- All that one request can do. -/
inductive Turn (i : Instance) : Request → Answer → Instance → Prop
  | wanes {r : Request} {a : Answer} {j : Instance} : r ≠ .destroy → i.Wanes j →
      a.isFinalized = false → a.isAssembled = false → a.isFreed = false → Turn i r a j
  | finalized {r : Request} {t : OutputTables} : r ≠ .destroy → i.isDestroyed = false →
      i.tables = none → Turn i r .finalized { i with tables := some t }
  | assembled {r : Request} {artifact : Artifact} {unwritten : Option Error} {j : Instance} :
      r ≠ .destroy → i.Wanes j → i.output.isSome = true → j.output = none →
      Turn i r (.assembled artifact unwritten) j
  | destroyed : Turn i .destroy (.destroyed i.destroy.1) i.destroy.2

/-- A request that is refused, or changes something else. -/
theorem Turn.done {outcome : Except Error Nat} (hr : r ≠ .destroy) (h : i.Wanes j) :
    Turn i r (.ofResult outcome) j := by
  cases outcome with
  | ok _ => exact .wanes hr h rfl rfl rfl
  | error e => exact .wanes hr h rfl rfl rfl

theorem finalizeWithin_eq_ok {globals functions : Memory} {flags : UInt8}
    (h : i.finalizeWithin globals functions flags = .ok j) :
    i.isDestroyed = false ∧ i.tables = none ∧ j = { i with tables := some (.ofFlags flags) } := by
  obtain ⟨k, hk, h⟩ := except_bind_eq_ok.mp h
  rw [finalize] at hk
  split at hk
  · cases hk
  · next halive =>
    split at hk
    · cases hk
    · next hbare =>
      obtain rfl := Except.ok.inj hk
      split at h
      · split at h
        · exact ⟨by simpa using halive, by simpa using hbare, (Except.ok.inj h).symm⟩
        · cases h
      · cases h

theorem Turn.assembly (granted : Memory) (symbols : Symbols) (hr : r ≠ .destroy)
    (unwritten? : Artifact → Option Error) :
    Turn i r (Answer.ofAssembly unwritten? (Program.assembleWithin granted symbols i)).1
      (Answer.ofAssembly unwritten? (Program.assembleWithin granted symbols i)).2 := by
  obtain ⟨hok, herror⟩ := Program.usesUp_assembleWithin granted symbols i
  cases hrun : Program.assembleWithin granted symbols i with
  | ok artifact i' =>
    obtain ⟨made, hmade⟩ := Program.assemble_of_assembleWithin hrun
    obtain ⟨-, houtput, hnone⟩ := Program.taken_of_assemble hmade
    exact .assembled hr (hok artifact i' hrun) houtput hnone
  | error e i' => exact .wanes hr (herror e i' hrun).1 rfl rfl rfl

theorem turn (i : Instance) (r : Request) : Turn i r (i.perform r).1 (i.perform r).2 := by
  cases r with
  | report d => exact .wanes (by simp) (.of_same rfl rfl rfl rfl rfl rfl) rfl rfl rfl
  | takeDiagnostics => exact .wanes (by simp) (.of_same rfl rfl rfl rfl rfl rfl) rfl rfl rfl
  | markInclude => exact .wanes (by simp) (.of_same rfl rfl rfl rfl rfl rfl) rfl rfl rfl
  | applyFlags flags => exact .wanes (by simp) (.of_same rfl rfl rfl rfl rfl rfl) rfl rfl rfl
  | define function => exact .wanes (by simp) (.of_same rfl rfl rfl rfl rfl rfl) rfl rfl rfl
  | useBuffer change =>
    rw [perform]
    cases hopen : i.openBuffer with
    | ok b => exact .wanes (by simp) (.of_openBuffer hopen (change b)) rfl rfl rfl
    | error e => exact .wanes (by simp) (.refl i) rfl rfl rfl
  | takeBuffer => exact .wanes (by simp) (.takeBuffer i) rfl rfl rfl
  | absorb granted child => exact .done (by simp) (Wanes.absorb granted i child).1
  | join granted parent => exact .done (by simp) (Wanes.absorb granted parent i).2
  | useOutput change =>
    rw [perform]
    cases houtput : i.output with
    | some w =>
      rw [openOutput, houtput]
      refine .wanes (by simp) ⟨rfl, rfl, rfl, fun _ h => h, fun hnone => ?_, rfl⟩ rfl rfl rfl
      cases houtput.symm.trans hnone
    | none =>
      rw [openOutput, houtput]
      exact .wanes (by simp) (.refl i) rfl rfl rfl
  | takeOutput => exact .wanes (by simp) (.takeOutput i) rfl rfl rfl
  | useTables change => exact .wanes (by simp) (.modifyTables i change) rfl rfl rfl
  | finalize globals functions flags =>
    rw [perform]
    cases hfinal : i.finalizeWithin globals functions flags with
    | ok i' =>
      obtain ⟨halive, hbare, rfl⟩ := finalizeWithin_eq_ok hfinal
      exact .finalized (by simp) halive hbare
    | error e => exact .wanes (by simp) (.refl i) rfl rfl rfl
  | assemble granted symbols => exact .assembly granted symbols (by simp) _
  | write granted symbols name path files => exact .assembly granted symbols (by simp) _
  | destroy => exact .destroyed

/-! ## The end -/

theorem isDestroyed_destroy (i : Instance) : i.destroy.2.isDestroyed = true := by
  rw [destroy]
  split
  · assumption
  · rfl

theorem destroy_of_alive (h : i.isDestroyed = false) :
    i.destroy = (i.source.isOwned,
      { i with
        isDestroyed := true
        source := if i.source.isOwned then .released else i.source
        buffer := none
        output := none
        tables := none }) := by
  rw [destroy, h]
  rfl

theorem destroy_of_destroyed (h : i.isDestroyed = true) : i.destroy = (false, i) := by
  rw [destroy, if_pos h]

theorem output_destroy (h : i.output = none) : i.destroy.2.output = none := by
  rw [destroy]
  split
  · exact h
  · rfl

/-! ## What can be had once -/

/-- Something is had only while an instance is ready for it, and the instance is never ready again. -/
structure Once (p : Answer → Bool) (ready : Instance → Prop) : Prop where
  had : ∀ {i : Instance} {r : Request} {a : Answer} {j : Instance},
    Turn i r a j → p a = true → ready i ∧ ¬ ready j
  gone : ∀ {i : Instance} {r : Request} {a : Answer} {j : Instance},
    Turn i r a j → ¬ ready i → ¬ ready j

theorem Once.countP_le_one {p : Answer → Bool} {ready : Instance → Prop} (h : Once p ready)
    (i : Instance) (history : List Request) : (i.answers history).countP p ≤ 1 := by
  have hboth : (i.answers history).countP p ≤ 1 ∧
      (¬ ready i → (i.answers history).countP p = 0) := by
    induction history generalizing i with
    | nil => exact ⟨Nat.zero_le 1, fun _ => rfl⟩
    | cons r later ih =>
      have hturn := turn i r
      obtain ⟨hle, hzero⟩ := ih (i.perform r).2
      by_cases hp : p (i.perform r).1 = true
      · obtain ⟨hready, hnot⟩ := h.had hturn hp
        rw [answers, List.countP_cons_of_pos hp, hzero hnot]
        exact ⟨Nat.le_refl 1, fun hi => absurd hready hi⟩
      · rw [answers, List.countP_cons_of_neg hp]
        exact ⟨hle, fun hi => hzero (h.gone hturn hi)⟩
  exact hboth.1

/-- An instance that can be finalized. -/
def IsUnfinished (i : Instance) : Prop := i.isDestroyed = false ∧ i.tables.isSome = false

theorem once_finalized : Once Answer.isFinalized IsUnfinished := by
  have hwanes : ∀ {i j : Instance}, i.Wanes j → ¬ i.IsUnfinished → ¬ j.IsUnfinished :=
    fun h hi hj => hi ⟨h.destroyed.symm.trans hj.1, h.tables.symm.trans hj.2⟩
  refine ⟨fun hturn ha => ?_, fun hturn hi => ?_⟩
  · cases hturn with
    | wanes _ _ hnot => cases hnot.symm.trans ha
    | finalized _ halive hbare => exact ⟨⟨halive, by rw [hbare]; rfl⟩, fun h => nomatch h.2⟩
    | assembled => cases ha
    | destroyed => cases ha
  · cases hturn with
    | wanes _ h => exact hwanes h hi
    | finalized => exact fun h => nomatch h.2
    | assembled _ h => exact hwanes h hi
    | destroyed => exact fun h => nomatch h.1.symm.trans (isDestroyed_destroy _)

theorem once_assembled : Once Answer.isAssembled fun i => i.output.isSome = true := by
  have hgone : ∀ {i j : Instance}, (i.output = none → j.output = none) →
      ¬ i.output.isSome = true → ¬ j.output.isSome = true := by
    intro i j h hi
    rw [Option.not_isSome_iff_eq_none] at hi ⊢
    exact h hi
  refine ⟨fun hturn ha => ?_, fun hturn => ?_⟩
  · cases hturn with
    | wanes _ _ _ hnot => cases hnot.symm.trans ha
    | finalized => cases ha
    | assembled _ _ houtput hnone => exact ⟨houtput, by rw [hnone]; exact Bool.false_ne_true⟩
    | destroyed => cases ha
  · cases hturn with
    | wanes _ h => exact hgone h.output
    | finalized => exact id
    | assembled _ h => exact hgone h.output
    | destroyed => exact hgone output_destroy

theorem once_freed : Once Answer.isFreed fun i => i.isDestroyed = false := by
  refine ⟨fun hturn ha => ?_, fun hturn hi => ?_⟩
  · cases hturn with
    | wanes _ _ _ _ hnot => cases hnot.symm.trans ha
    | finalized => cases ha
    | assembled => cases ha
    | destroyed =>
      refine ⟨?_, by rw [isDestroyed_destroy]; nofun⟩
      rw [Bool.eq_false_iff]
      intro hdestroyed
      rw [destroy_of_destroyed hdestroyed] at ha
      cases ha
  · cases hturn with
    | wanes _ h => rwa [h.destroyed]
    | finalized => exact hi
    | assembled _ h => rwa [h.destroyed]
    | destroyed => rw [isDestroyed_destroy]; nofun

/-! ## What is left -/

/-- A source that comes to an instance, and whether the instance has a copy of its own. -/
def heldSource (debug destroyed : Bool) (source : Bytes) : SourceHold :=
  if debug then if destroyed then .released else .owned source
  else .borrowed source

/-- What an instance still has, depending on whether it is destroyed. -/
structure Lives (debug : Bool) (source : Bytes) (i : Instance) : Prop where
  source : i.source = heldSource debug i.isDestroyed source
  debug : i.debug = debug
  bare : i.isDestroyed = true → i.buffer = none ∧ i.output = none ∧ i.tables = none

variable {debug : Bool} {source : Bytes}

theorem Lives.wanes (h : i.Lives debug source) (hij : i.Wanes j) : j.Lives debug source where
  source := by rw [hij.source, hij.destroyed, h.source]
  debug := hij.debug.trans h.debug
  bare := by
    intro hj
    have hi := hij.destroyed.symm.trans hj
    obtain ⟨hbuffer, houtput, htables⟩ := h.bare hi
    have hnone := hij.tables
    rw [htables] at hnone
    exact ⟨hij.buffer hi hbuffer, hij.output houtput, by simpa using hnone⟩

theorem Lives.destroy (h : i.Lives debug source) : i.destroy.2.Lives debug source := by
  cases hdestroyed : i.isDestroyed with
  | true =>
    rw [destroy_of_destroyed hdestroyed]
    exact h
  | false =>
    rw [destroy_of_alive hdestroyed]
    refine ⟨?_, h.debug, fun _ => ⟨rfl, rfl, rfl⟩⟩
    have hsource := h.source
    rw [hdestroyed] at hsource
    dsimp only
    rw [hsource]
    cases debug with
    | true => rfl
    | false => rfl

/-- A copy of the source is given back when the instance ends that has it. -/
theorem Lives.destroy_iff (h : i.Lives debug source) :
    i.destroy.1 = true ↔ debug = true ∧ i.isDestroyed = false := by
  cases hdestroyed : i.isDestroyed with
  | true => simp [destroy_of_destroyed hdestroyed]
  | false =>
    rw [destroy_of_alive hdestroyed, h.source, hdestroyed]
    cases debug with
    | true => simp [heldSource, SourceHold.isOwned]
    | false => simp [heldSource, SourceHold.isOwned]

theorem Lives.turn (h : i.Lives debug source) (hturn : Turn i r a j) : j.Lives debug source := by
  cases hturn with
  | wanes _ hij => exact h.wanes hij
  | finalized _ halive _ =>
    refine ⟨h.source, h.debug, fun hdestroyed => ?_⟩
    cases halive.symm.trans hdestroyed
  | assembled _ hij => exact h.wanes hij
  | destroyed => exact h.destroy

theorem isDestroyed_turn (hturn : Turn i r a j) :
    j.isDestroyed = true ↔ i.isDestroyed = true ∨ r = .destroy := by
  cases hturn with
  | wanes hr h => simp [h.destroyed, hr]
  | finalized hr => simp [hr]
  | assembled hr h => simp [h.destroyed, hr]
  | destroyed => simp [isDestroyed_destroy]

theorem run_cons (i : Instance) (r : Request) (later : List Request) :
    i.run (r :: later) = (i.perform r).2.run later := rfl

theorem run_lives (h : i.Lives debug source) (history : List Request) :
    (i.run history).Lives debug source ∧
      ((i.run history).isDestroyed = true ↔ i.isDestroyed = true ∨ .destroy ∈ history) := by
  induction history generalizing i with
  | nil => exact ⟨h, by simp [run]⟩
  | cons r later ih =>
    obtain ⟨hlives, hdestroyed⟩ := ih (h.turn (turn i r))
    refine ⟨hlives, ?_⟩
    rw [run_cons, hdestroyed, isDestroyed_turn (turn i r), List.mem_cons, or_assoc, eq_comm (a := r)]

/-- An instance begins with its source, and is not destroyed. -/
theorem lives_of_create {granted : Memory} {name : String} {path : Option String} {owns : Bool}
    {registry registry' : Registry}
    (h : create granted name source path debug owns registry = .ok (i, registry')) :
    i.Lives debug source ∧ i.isDestroyed = false := by
  obtain ⟨c, hbegin, h⟩ := except_bind_eq_ok.mp h
  obtain ⟨-, rfl⟩ := eq_blank_of_begin? hbegin
  have hblank : (blank name source debug owns).Lives debug source := ⟨rfl, rfl, nofun⟩
  cases path with
  | none =>
    obtain ⟨rfl, -⟩ := Prod.mk.inj (Except.ok.inj h)
    exact ⟨hblank, rfl⟩
  | some path =>
    obtain ⟨rfl, -⟩ := Prod.mk.inj (Except.ok.inj h)
    exact ⟨hblank.wanes (.of_same rfl rfl rfl rfl rfl rfl), rfl⟩

/-- What is left of a destroyed instance gives no buffer, no output window and no tables. -/
theorem isNothing_of_bare (h : i.buffer = none ∧ i.output = none ∧ i.tables = none)
    (hdestroyed : i.isDestroyed = true) (hr : r.isForStore = true) :
    (i.perform r).1.isNothing = true := by
  obtain ⟨hbuffer, houtput, htables⟩ := h
  have hopen : i.openBuffer = .error .instanceDestroyed := by rw [openBuffer, if_pos hdestroyed]
  have hassembly (granted : Memory) (symbols : Symbols) (unwritten? : Artifact → Option Error) :
      (Answer.ofAssembly unwritten? (Program.assembleWithin granted symbols i)).1.isNothing = true := by
    obtain ⟨e, he⟩ := Program.assembleWithin_of_bare granted symbols htables
    rw [he]
    rfl
  cases r with
  | useBuffer change => rw [perform, hopen]; rfl
  | takeBuffer => rw [perform, takeBuffer, hbuffer]; rfl
  | absorb granted child =>
    obtain ⟨records, hrecords⟩ := Option.isSome_iff_exists.mp hr
    rw [perform, absorb, hrecords, hopen]
    rfl
  | useOutput change => rw [perform, openOutput, houtput]; rfl
  | takeOutput => rw [perform, takeOutput, houtput]; rfl
  | useTables change => rw [perform, htables]; rfl
  | finalize globals functions flags =>
    rw [perform, finalizeWithin, finalize, if_pos hdestroyed]
    rfl
  | assemble granted symbols => exact hassembly granted symbols _
  | write granted symbols name path files => exact hassembly granted symbols _
  | _ => cases hr

/-- However an instance is used: it is finalized at most once, at most one script is assembled from
it, and at most once a copy of its source is given back, which is so when it is first destroyed, if it was
created in debug mode; the copy is then released.  Once it is destroyed it has no buffer, no output
window and no tables, whatever it is asked for has nothing of them to give, nor does an instance that
takes it over get any code, and its source can be read exactly if it is not a copy. -/
theorem life_forward {granted : Memory} {name : String} {path : Option String} {owns : Bool}
    {registry registry' : Registry}
    (h : create granted name source path debug owns registry = .ok (i, registry'))
    (history : List Request) :
    let j := i.run history
    (i.answers history).countP Answer.isFinalized ≤ 1 ∧
    (i.answers history).countP Answer.isAssembled ≤ 1 ∧
    (i.answers history).countP Answer.isFreed ≤ 1 ∧
    (j.isDestroyed = true ↔ .destroy ∈ history) ∧
    j.debug = debug ∧
    (j.destroy.1 = true ↔ debug = true ∧ .destroy ∉ history) ∧
    (j.destroy.1 = true → j.source = .owned source ∧ j.destroy.2.source = .released) ∧
    (.destroy ∈ history →
      j.buffer = none ∧ j.output = none ∧ j.tables = none ∧
      (∀ r : Request, r.isForStore = true → (j.perform r).1.isNothing = true) ∧
      (∀ granted parent, (absorb granted parent j).1.buffer = parent.buffer) ∧
      j.sourceText = if debug then .error .instanceDestroyed else .ok (Bytes.toText source)) := by
  intro j
  obtain ⟨hlives, halive⟩ := lives_of_create h
  obtain ⟨hj, hdestroyed⟩ := run_lives hlives history
  have hdestroyed : j.isDestroyed = true ↔ .destroy ∈ history := by simpa [halive] using hdestroyed
  refine ⟨once_finalized.countP_le_one i history, once_assembled.countP_le_one i history,
    once_freed.countP_le_one i history, hdestroyed, hj.debug, ?_, ?_, ?_⟩
  · rw [hj.destroy_iff, ← hdestroyed, Bool.not_eq_true]
  · intro hfreed
    obtain ⟨rfl, halive⟩ := hj.destroy_iff.mp hfreed
    have hsource : j.source = .owned source := by rw [hj.source, halive]; rfl
    refine ⟨hsource, ?_⟩
    rw [destroy_of_alive halive, hsource]
    rfl
  · intro hmem
    have hended := hdestroyed.mpr hmem
    obtain ⟨hbuffer, houtput, htables⟩ := hj.bare hended
    refine ⟨hbuffer, houtput, htables, fun r => isNothing_of_bare (hj.bare hended) hended, ?_, ?_⟩
    · intro granted parent
      rw [absorb, hbuffer]
    · rw [sourceText, hj.source, hended]
      cases debug with
      | true => rfl
      | false => rfl

theorem life_forward_debugged :
    ∃ i registry, create addressable "main" [0x3B] (some "main.nss") true true .empty
        = .ok (i, registry) ∧
      let j := i.run [.finalize addressable addressable 1, .destroy, .destroy]
      j.isDestroyed = true ∧ j.sourceText = .error .instanceDestroyed := by
  have hcreate : create addressable "main" [0x3B] (some "main.nss") true true .empty
      = .ok ({ blank "main" [0x3B] true true with registration := some .new },
          (Registry.empty.register (IncludeKey.ofPath "main.nss")).2) := rfl
  obtain ⟨-, -, -, hdestroyed, -, -, -, hended⟩ := life_forward hcreate
    [.finalize addressable addressable 1, .destroy, .destroy]
  exact ⟨_, _, hcreate, hdestroyed.mpr (by simp), (hended (by simp)).2.2.2.2.2⟩

end Instance
end Nss
