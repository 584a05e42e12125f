/-
# Instructions that are read back

An encoded instruction is read back as the operation it was, with its operand, where the number that
was given for a symbolic operand takes the place of that one.  That takes no more than that the
operand is one that the operation takes (`Op.Takes`): the three tables, for the bytes of an
instruction, for their number and for what is read, agree on every operation.  Instructions one after
the other are read back each at its offset, and behind a header with the right size they are the
whole file (`Listing.ofFile_fileOf`).
-/
import Nss.Bytecode.Listing
import Nss.Proofs.Text.Bytes
import Nss.Proofs.Operators

namespace Nss

/-- An operand as it is read back, `resolved` standing for a symbolic one. -/
def Operand.decoded (resolved : Int32) : Operand → DecodedOperand
  | .none => .none
  | .int v | .object v | .offset v => .int v
  | .float v => .float v
  | .str text => .str text
  | .stack distance size => .stack distance size
  | .label _ | .call _ => .int resolved
  | .global _ => .stack resolved (UInt16.ofNat cellSize)

/-- The instructions that can be read back: the operand is one that the operation takes, and its types
have bytes that stand for them. -/
inductive Instruction.WellFormed : Instruction → Prop
  | int (v : Int32) : Instruction.WellFormed ⟨.const .int, .int v⟩
  | float (v : Binary32) : Instruction.WellFormed ⟨.const .float, .float v⟩
  | string {v : String} :
      (Bytes.ofText v).length ≤ maxString → Instruction.WellFormed ⟨.const .string, .str v⟩
  | object (v : Int32) : Instruction.WellFormed ⟨.const .object, .object v⟩
  | reserve {t : ValueType} : t ≠ .void → Instruction.WellFormed (.reserve t)
  | load (offset : Int32) (size : UInt16) : Instruction.WellFormed ⟨.cpTopSp, .stack offset size⟩
  | store (offset : Int32) (size : UInt16) : Instruction.WellFormed ⟨.cpDownSp, .stack offset size⟩
  | loadGlobal (slot : Nat) : Instruction.WellFormed ⟨.cpTopBp, .global slot⟩
  | storeGlobal (slot : Nat) : Instruction.WellFormed ⟨.cpDownBp, .global slot⟩
  | move (bytes : Int32) : Instruction.WellFormed ⟨.movSp, .offset bytes⟩
  | jump (label : Nat) : Instruction.WellFormed ⟨.jmp, .label label⟩
  | jumpIfZero (label : Nat) : Instruction.WellFormed ⟨.jz, .label label⟩
  | call (id : Nat) : Instruction.WellFormed ⟨.jsr, .call id⟩
  | unary {op : Op} {o : UnaryOp} {t : ValueType} :
      op.unary? = some (o, t) → t ≠ .void → Instruction.WellFormed (.simple op)
  | binary {op : Op} : op.binary?.isSome = true → Instruction.WellFormed (.simple op)
  | ending : Instruction.WellFormed .ending
  | saveBp : Instruction.WellFormed (.simple .saveBp)
  | restoreBp : Instruction.WellFormed (.simple .restoreBp)

namespace Op

/-- Whether an operation has no operand and its types have bytes that stand for them. -/
def isPlain : Op → Bool
  | rsAdd t | neg t => !t.isVoid
  | logAnd | logOr | equal _ | notEqual _ | geq _ | gt _ | lt _ | leq _ | add _ | sub _ | mul _
  | div _ | mod | retn | not | saveBp | restoreBp => true
  | cpDownSp | cpTopSp | cpDownBp | cpTopBp | const _ | movSp | jmp | jsr | jz => false

/-- The operands that an operation takes; there is none for one whose type is no type of values. -/
inductive Takes : Op → Operand → Prop
  | stack {op : Op} (distance : Int32) (size : UInt16) :
      op ∈ [cpDownSp, cpTopSp, cpDownBp, cpTopBp] → Takes op (.stack distance size)
  | global {op : Op} (slot : Nat) : op ∈ [cpDownBp, cpTopBp] → Takes op (.global slot)
  | int (v : Int32) : Takes (const .int) (.int v)
  | float (v : Binary32) : Takes (const .float) (.float v)
  | string {text : String} :
      (Bytes.ofText text).length ≤ Instruction.maxString → Takes (const .string) (.str text)
  | object (v : Int32) : Takes (const .object) (.object v)
  | offset (bytes : Int32) : Takes movSp (.offset bytes)
  | label {op : Op} (index : Nat) : op ∈ [jmp, jsr, jz] → Takes op (.label index)
  | call {op : Op} (id : Nat) : op ∈ [jmp, jsr, jz] → Takes op (.call id)
  | none {op : Op} : op.isPlain = true → Takes op .none

theorem decode?_of_isPlain {op : Op} (h : op.isPlain = true) :
    decode? op.code op.typeByte = some op := by
  cases op with
  | rsAdd t | neg t =>
      cases t with
      | void => cases h
      | int | float | string | object => rfl
  | equal p | notEqual p | geq p | gt p | lt p | leq p | add p | sub p | mul p | div p =>
      cases p <;> rfl
  | logAnd | logOr | mod | retn | not | saveBp | restoreBp => rfl
  | cpDownSp | cpTopSp | cpDownBp | cpTopBp | const _ | movSp | jmp | jsr | jz => cases h

/-- The two bytes of an operation that takes an operand stand for it. -/
theorem Takes.decode? {op : Op} {x : Operand} (h : op.Takes x) :
    decode? op.code op.typeByte = some op := by
  cases h with
  | stack _ _ hop | global _ hop | label _ hop | call _ hop =>
      simp only [List.mem_cons, List.not_mem_nil, or_false] at hop
      rcases hop with rfl | rfl | rfl | rfl <;> rfl
  | int | float | string | object | offset => rfl
  | none hop => exact decode?_of_isPlain hop

theorem isPlain_of_unary? {op : Op} {o : UnaryOp} {t : ValueType} (h : op.unary? = some (o, t))
    (ht : t ≠ .void) : op.isPlain = true := by
  cases op with
  | neg t' =>
      obtain ⟨-, rfl⟩ := Prod.mk.inj (Option.some.inj h)
      cases t' with
      | void => exact absurd rfl ht
      | int | float | string | object => rfl
  | not => rfl
  | _ => cases h

theorem isPlain_of_binary? {op : Op} (h : op.binary?.isSome = true) : op.isPlain = true := by
  cases op with
  | equal _ | notEqual _ | geq _ | gt _ | lt _ | leq _ | add _ | sub _ | mul _ | div _ | logAnd
  | logOr | mod => rfl
  | _ => cases h

end Op

/-- What functions are lowered to has the operands that its operations take. -/
theorem Instruction.WellFormed.takes {i : Instruction} (h : i.WellFormed) :
    i.op.Takes i.operand := by
  cases h with
  | int v => exact .int v
  | float v => exact .float v
  | string hv => exact .string hv
  | object v => exact .object v
  | @reserve t ht =>
      refine .none ?_
      cases t with
      | void => exact absurd rfl ht
      | int | float | string | object => rfl
  | load distance size | store distance size => exact .stack distance size (by simp)
  | loadGlobal slot | storeGlobal slot => exact .global slot (by simp)
  | move bytes => exact .offset bytes
  | jump label | jumpIfZero label => exact .label label (by simp)
  | call id => exact .call id (by simp)
  | unary hop ht => exact .none (Op.isPlain_of_unary? hop ht)
  | binary hop => exact .none (Op.isPlain_of_binary? hop)
  | ending | saveBp | restoreBp => exact .none rfl

namespace Listing

variable {at_ : Nat} {bytes rest : Bytes}

theorem instruction_cons {code type : UInt8} {op : Op} {x : DecodedOperand}
    (hop : Op.decode? code type = some op) (hx : operand op (at_ + 2) bytes = .ok (x, rest)) :
    instruction at_ (code :: type :: bytes) = .ok (⟨at_, op, x⟩, rest) := by
  rw [instruction]
  simp only [hop, hx]
  rfl

theorem toInt32_toUInt32 (v : Int32) :
    (Bytes.toUInt32 (v.toUInt32 >>> 24).toUInt8 (v.toUInt32 >>> 16).toUInt8
      (v.toUInt32 >>> 8).toUInt8 v.toUInt32.toUInt8).toInt32 = v := by
  rw [Bytes.toUInt32_ofUInt32]
  rfl

/-- Four bytes behind an operation that takes an integer. -/
theorem operand_integer {op : Op} (v : Int32) (rest : Bytes)
    (hop : op ∈ [.const .int, .const .object, .movSp, .jmp, .jsr, .jz]) :
    operand op at_ (Bytes.ofUInt32 v.toUInt32 ++ rest) = .ok (.int v, rest) := by
  have hv := toInt32_toUInt32 v
  simp only [List.mem_cons, List.not_mem_nil, or_false] at hop
  rcases hop with rfl | rfl | rfl | rfl | rfl | rfl <;>
    · show Except.ok (DecodedOperand.int _, rest) = _
      rw [hv]

theorem operand_float (v : Binary32) (rest : Bytes) :
    operand (.const .float) at_ (Bytes.ofUInt32 v.bits ++ rest) = .ok (.float v, rest) := by
  show Except.ok (DecodedOperand.float ⟨_⟩, rest) = _
  rw [Bytes.toUInt32_ofUInt32]

/-- Six bytes behind an operation that takes a distance and a size. -/
theorem operand_stack {op : Op} (offset : Int32) (size : UInt16) (rest : Bytes)
    (hop : op ∈ [.cpDownSp, .cpTopSp, .cpDownBp, .cpTopBp]) :
    operand op at_ (Bytes.ofUInt32 offset.toUInt32 ++ Bytes.ofUInt16 size ++ rest)
      = .ok (.stack offset size, rest) := by
  have hoffset := toInt32_toUInt32 offset
  have hsize := Bytes.toUInt16_ofUInt16 size
  simp only [List.mem_cons, List.not_mem_nil, or_false] at hop
  rcases hop with rfl | rfl | rfl | rfl <;>
    · show Except.ok (DecodedOperand.stack _ _, rest) = _
      rw [hoffset, hsize]

/-- The bytes of a string and their number. -/
theorem operand_string {text : String} (rest : Bytes)
    (h : (Bytes.ofText text).length ≤ Instruction.maxString) :
    operand (.const .string) at_ (Instruction.encodeOperand 0 (.str text) ++ rest)
      = .ok (.str text, rest) := by
  have hbytes : Instruction.stringBytes text = Bytes.ofText text := List.take_of_length_le h
  have hlen : (UInt16.ofNat (Bytes.ofText text).length).toNat = (Bytes.ofText text).length := by
    rw [UInt16.toNat_ofNat', Nat.mod_eq_of_lt (Nat.lt_of_le_of_lt h (by decide))]
  have hsize := Bytes.toUInt16_ofUInt16 (UInt16.ofNat (Bytes.ofText text).length)
  simp only [Instruction.encodeOperand, hbytes, Bytes.ofUInt16, List.cons_append, List.nil_append]
  rw [operand]
  simp only [hsize, hlen, List.length_append, Nat.le_add_right, if_true, List.take_left,
    List.drop_left, Bytes.toText_ofText]

theorem operand_plain {op : Op} (rest : Bytes) (hop : op.isPlain = true) :
    operand op at_ rest = .ok (.none, rest) := by
  cases op with
  | cpDownSp | cpTopSp | cpDownBp | cpTopBp | const _ | movSp | jmp | jsr | jz => cases hop
  | _ => rfl

/-- The operand of an operation that takes it is read back. -/
theorem operand_encode {op : Op} {x : Operand} (h : op.Takes x) (resolved : Int32)
    (rest : Bytes) :
    operand op at_ (Instruction.encodeOperand resolved x ++ rest)
      = .ok (x.decoded resolved, rest) := by
  cases h with
  | stack distance size hop => exact operand_stack distance size rest hop
  | global _ hop =>
      exact operand_stack resolved _ rest (List.mem_cons_of_mem _ (List.mem_cons_of_mem _ hop))
  | int v | object v | offset v => exact operand_integer v rest (by simp)
  | label _ hop | call _ hop =>
      exact operand_integer resolved rest
        (List.mem_cons_of_mem _ (List.mem_cons_of_mem _ (List.mem_cons_of_mem _ hop)))
  | float v => exact operand_float v rest
  | string hv => exact operand_string rest hv
  | none hop => exact operand_plain rest hop

/-- An instruction is read back. -/
theorem instruction_encode {i : Instruction} (h : i.op.Takes i.operand) (resolved : Int32)
    (rest : Bytes) :
    instruction at_ (i.encode resolved ++ rest)
      = .ok (⟨at_, i.op, i.operand.decoded resolved⟩, rest) :=
  instruction_cons h.decode? (operand_encode h resolved rest)

/-! ## Instructions one after the other -/

/-- Instructions, with the numbers that take the place of symbolic operands, as bytes. -/
def encodeAll (code : List (Instruction × Int32)) : Bytes :=
  code.flatMap fun (i, resolved) => i.encode resolved

/-- What such instructions are read back as from an offset on. -/
def decodedAll : Nat → List (Instruction × Int32) → List Decoded
  | _, [] => []
  | at_, (i, resolved) :: rest =>
    ⟨at_, i.op, i.operand.decoded resolved⟩ :: decodedAll (at_ + i.size) rest

theorem length_encodeAll (code : List (Instruction × Int32)) :
    (encodeAll code).length = codeSize (code.map Prod.fst) := by
  induction code with
  | nil => rfl
  | cons p rest ih =>
      rw [encodeAll, List.flatMap_cons, List.length_append, Instruction.length_encode,
        List.map_cons, codeSize, ← ih]
      rfl

theorem encodeAll_append (code code' : List (Instruction × Int32)) :
    encodeAll (code ++ code') = encodeAll code ++ encodeAll code' :=
  List.flatMap_append

theorem decodedAll_append (code code' : List (Instruction × Int32)) :
    ∀ at_, decodedAll at_ (code ++ code')
      = decodedAll at_ code ++ decodedAll (at_ + codeSize (code.map Prod.fst)) code' := by
  induction code with
  | nil => exact fun _ => rfl
  | cons p rest ih =>
      intro at_
      rw [List.cons_append, decodedAll, decodedAll, ih, List.map_cons, codeSize, Nat.add_assoc]
      rfl

/-- Instructions are read back one after the other. -/
theorem instructions_encodeAll :
    ∀ {code : List (Instruction × Int32)} {fuel : Nat} (at_ : Nat),
      (∀ p ∈ code, p.1.op.Takes p.1.operand) → code.length ≤ fuel →
      instructions fuel at_ (encodeAll code) = .ok (decodedAll at_ code)
  | [], 0, _, _, _ => rfl
  | [], _ + 1, _, _, _ => rfl
  | (i, resolved) :: rest, fuel + 1, at_, hcode, hfuel => by
      have hbytes : encodeAll ((i, resolved) :: rest) = i.encode resolved ++ encodeAll rest := rfl
      have hne : i.encode resolved ++ encodeAll rest ≠ [] := nofun
      have hrest : instructions fuel (at_ + i.size) (encodeAll rest)
          = .ok (decodedAll (at_ + i.size) rest) :=
        instructions_encodeAll _ (fun p hp => hcode p (.tail _ hp)) (Nat.le_of_succ_le_succ hfuel)
      have hsize : (i.encode resolved ++ encodeAll rest).length - (encodeAll rest).length
          = i.size := by
        rw [List.length_append, Nat.add_sub_cancel, Instruction.length_encode]
      rw [hbytes, instructions, if_neg hne,
        instruction_encode (hcode _ List.mem_cons_self) resolved (encodeAll rest)]
      show (do
        let ds ← instructions fuel (at_ + ((i.encode resolved ++ encodeAll rest).length
          - (encodeAll rest).length)) (encodeAll rest)
        return _ :: ds : Except Error (List Decoded)) = _
      rw [hsize, hrest]
      rfl

/-- Every instruction is read back at the offset behind those before it. -/
theorem getElem?_decodedAll {code : List (Instruction × Int32)} {n : Nat} {i : Instruction}
    {resolved : Int32} (h : code[n]? = some (i, resolved)) (at_ : Nat) :
    (decodedAll at_ code)[n]? = some ⟨at_ + codeSize ((code.take n).map Prod.fst), i.op,
      i.operand.decoded resolved⟩ := by
  induction code generalizing at_ n with
  | nil => cases h
  | cons p rest ih =>
      cases n with
      | zero =>
          obtain rfl := Option.some.inj h
          rfl
      | succ n =>
          have hread := ih h (at_ + p.1.size)
          rw [decodedAll, List.getElem?_cons_succ, hread, List.take_succ_cons, List.map_cons,
            codeSize, Nat.add_assoc]

theorem length_decodedAll (code : List (Instruction × Int32)) :
    ∀ at_, (decodedAll at_ code).length = code.length := by
  induction code with
  | nil => exact fun _ => rfl
  | cons p rest ih => exact fun at_ => congrArg (· + 1) (ih _)

/-! ## Files -/

/-- The size field holds the last 32 bits of the size. -/
theorem sizeField_fileHeader_mod (n : Nat) (rest : Bytes) :
    sizeField (fileHeader n ++ rest) = n % 2 ^ 32 := by
  have hread := Bytes.toUInt32_ofUInt32 (UInt32.ofNat n)
  show (Bytes.toUInt32 _ _ _ _).toNat = _
  rw [hread, UInt32.toNat_ofNat']

theorem sizeField_fileHeader {n : Nat} (hn : n < 2 ^ 32) (rest : Bytes) :
    sizeField (fileHeader n ++ rest) = n := by
  rw [sizeField_fileHeader_mod, Nat.mod_eq_of_lt hn]

theorem length_le_codeSize (code : List Instruction) : code.length ≤ codeSize code := by
  induction code with
  | nil => exact Nat.le_refl _
  | cons i rest ih =>
      rw [List.length_cons, codeSize, Instruction.size]
      omega

/-- The file that instructions make, behind a header with the size of the file. -/
def fileOf (code : List (Instruction × Int32)) : Bytes :=
  fileHeader (headerSize + codeSize (code.map Prod.fst)) ++ encodeAll code

theorem length_fileOf (code : List (Instruction × Int32)) :
    (fileOf code).length = headerSize + codeSize (code.map Prod.fst) := by
  rw [fileOf, List.length_append, length_encodeAll]
  rfl

/-- The reader looks at the size field first, which holds no more than 32 bits, and then at the
instructions. -/
theorem ofFile_of_takes {code : List (Instruction × Int32)}
    (hcode : ∀ p ∈ code, p.1.op.Takes p.1.operand) :
    ofFile (fileOf code)
      = if (fileOf code).length < 2 ^ 32 then .ok (decodedAll headerSize code)
        else .error (.malformed sizeOffset
          (.wrongSize ((fileOf code).length % 2 ^ 32) (fileOf code).length)) := by
  have hlength := length_fileOf code
  have hsize : sizeField (fileOf code) = (fileOf code).length % 2 ^ 32 := by
    rw [hlength]
    exact sizeField_fileHeader_mod _ _
  have hmagic : (fileOf code).take fileMagic.length = fileMagic := by
    rw [fileOf, fileHeader, List.append_assoc, List.take_left]
  have hdrop : (fileOf code).drop headerSize = encodeAll code := by
    show (fileOf code).drop (fileHeader (headerSize + codeSize (code.map Prod.fst))).length = _
    rw [fileOf, List.drop_left]
  have hheader : ¬((fileOf code).length < headerSize ∨ fileMagic ≠ fileMagic) := by
    rintro (h | h)
    · omega
    · exact h rfl
  rw [ofFile, hmagic, if_neg hheader, hsize]
  by_cases hsmall : (fileOf code).length < 2 ^ 32
  · have hfuel : code.length ≤ (fileOf code).length := by
      have hle := length_le_codeSize (code.map Prod.fst)
      rw [List.length_map] at hle
      omega
    rw [Nat.mod_eq_of_lt hsmall, if_neg (fun h => h rfl), if_pos hsmall, hdrop]
    exact instructions_encodeAll headerSize hcode hfuel
  · have hwrong : (fileOf code).length % 2 ^ 32 ≠ (fileOf code).length := by
      have hlt := Nat.mod_lt (fileOf code).length (Nat.two_pow_pos 32)
      omega
    rw [if_pos hwrong, if_neg hsmall]

/-- A file with the right header is read back as the instructions that it was made of. -/
theorem ofFile_encodeAll {code : List (Instruction × Int32)} {n : Nat}
    (hcode : ∀ p ∈ code, p.1.WellFormed) (hn : n < 2 ^ 32)
    (hlen : headerSize + codeSize (code.map Prod.fst) = n) :
    ofFile (fileHeader n ++ encodeAll code) = .ok (decodedAll headerSize code) := by
  subst hlen
  have hread := ofFile_of_takes fun p hp => (hcode p hp).takes
  rwa [if_pos (by rwa [length_fileOf])] at hread

/-- Every row of instructions, each with an operand that its operation takes, and whatever numbers
are given for them, is read back from the file that it makes: one instruction for each, with its
operation and its operand, at the offset behind the header and the instructions before it.  Only a
file whose size no size field can hold is refused, and for that. -/
theorem ofFile_fileOf {code : List (Instruction × Int32)}
    (hcode : ∀ p ∈ code, p.1.op.Takes p.1.operand) :
    ((fileOf code).length < 2 ^ 32 →
      ∃ ds : List Decoded, ofFile (fileOf code) = .ok ds ∧ ds.length = code.length ∧
        ∀ (n : Nat) (i : Instruction) (resolved : Int32), code[n]? = some (i, resolved) →
          ds[n]? = some ⟨headerSize + codeSize ((code.take n).map Prod.fst), i.op,
            i.operand.decoded resolved⟩) ∧
    (2 ^ 32 ≤ (fileOf code).length →
      ofFile (fileOf code) = .error (.malformed sizeOffset
        (.wrongSize ((fileOf code).length % 2 ^ 32) (fileOf code).length))) := by
  have hread := ofFile_of_takes hcode
  constructor
  · intro hsmall
    rw [if_pos hsmall] at hread
    exact ⟨decodedAll headerSize code, hread, length_decodedAll code _,
      fun _ _ _ h => getElem?_decodedAll h headerSize⟩
  · intro hlarge
    rwa [if_neg (Nat.not_lt.mpr hlarge)] at hread

/-- Rows that nothing is lowered to are among them: a label behind a call, a base pointer copy of
two bytes, a negated string, a float that is not a number. -/
theorem ofFile_fileOf_unusual :
    ∃ ds : List Decoded,
      ofFile (fileOf [(⟨.jsr, .label 3⟩, -9), (⟨.cpTopBp, .stack 5 2⟩, 0),
        (⟨.cpDownBp, .global 7⟩, -12), (⟨.neg .string, .none⟩, 1),
        (⟨.const .float, .float ⟨0x7FA00001⟩⟩, 2), (⟨.const .string, .str "é"⟩, 3)]) = .ok ds ∧
      ds.length = 6 ∧ ds[0]? = some ⟨13, .jsr, .int (-9)⟩ ∧
      ds[2]? = some ⟨27, .cpDownBp, .stack (-12) 4⟩ ∧
      ds[4]? = some ⟨37, .const .float, .float ⟨0x7FA00001⟩⟩ := by
  obtain ⟨ds, hread, hlength, hat⟩ := (@ofFile_fileOf
    [(⟨.jsr, .label 3⟩, -9), (⟨.cpTopBp, .stack 5 2⟩, 0), (⟨.cpDownBp, .global 7⟩, -12),
      (⟨.neg .string, .none⟩, 1), (⟨.const .float, .float ⟨0x7FA00001⟩⟩, 2),
      (⟨.const .string, .str "é"⟩, 3)]
    (by
      simp only [List.forall_mem_cons, List.not_mem_nil, false_implies, implies_true, and_true]
      exact ⟨.label 3 (by simp), .stack 5 2 (by simp), .global 7 (by simp), .none rfl, .float _,
        .string (by decide)⟩)).1
    (by
      rw [length_fileOf]
      decide)
  exact ⟨ds, hread, hlength, hat 0 _ _ rfl, hat 2 _ _ rfl, hat 4 _ _ rfl⟩

end Listing

end Nss
