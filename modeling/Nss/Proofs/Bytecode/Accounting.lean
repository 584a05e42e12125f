/-
# Every byte of a file is accounted for

Whatever bytes a file holds, reading it comes to an end.  If it is refused, the place that is named
is in the file or at its end.  If it is accepted, the instructions divide what is behind the header
among them (`Listing.Tiling`): each is read from the bytes between its own offset and the next one,
and is encoded as these bytes again (`Chunk.Exact`), as far as it tells: most operations are read
behind any type byte, and text that is no UTF-8 is replaced.  The size field makes an accepted file
the only one among its beginnings and its continuations.

`Bytes.readOn` is the loop of the reader: it goes on as long as there are bytes, and no number bounds
its turns beforehand.
-/
import Nss.Proofs.Bytecode.Reading

namespace Nss

/-- Whether the type byte of an operation tells the types that it works on. -/
def Op.isTyped : Op → Bool
  | rsAdd _ | const _ | neg _ | equal _ | notEqual _ | geq _ | gt _ | lt _ | leq _ | add _ | sub _
  | mul _ | div _ => true
  | cpDownSp | cpTopSp | logAnd | logOr | mod | movSp | jmp | jsr | jz | retn | not | cpDownBp
  | cpTopBp | saveBp | restoreBp => false

/-- Bytes that are the UTF-8 form of a text. -/
def Bytes.IsUtf8 (bytes : Bytes) : Prop := ∃ text, bytes = Bytes.ofText text

/-- The operand that stands for one that was read. -/
def DecodedOperand.operand : DecodedOperand → Operand
  | none => .none
  | int v => .int v
  | float v => .float v
  | str text => .str text
  | stack distance size => .stack distance size

/-- The instruction that stands for one that was read. -/
def Decoded.instruction (d : Decoded) : Instruction := ⟨d.op, d.operand.operand⟩

/-! ## Operations -/

theorem ValueType.eq_of_ofCode? {b : UInt8} {t : ValueType} (h : ofCode? b = some t) :
    b = t.code?.getD 0x00 := by
  rw [ofCode?] at h
  split_ifs at h <;> cases h <;> assumption

theorem TypePair.eq_of_ofCode? {b : UInt8} {p : TypePair} (h : ofCode? b = some p) :
    b = p.code := by
  rw [ofCode?] at h
  split_ifs at h <;> cases h <;> assumption

theorem or_of_ite_eq_some {α : Type} {c : Prop} [Decidable c] {x r : Option α} {y : α}
    (h : (if c then x else r) = some y) : c ∧ x = some y ∨ r = some y := by
  split at h
  · exact .inl ⟨‹c›, h⟩
  · exact .inr h

/-- The two bytes that an operation is read from are its own, as far as they tell. -/
theorem Op.eq_of_decode? {code type : UInt8} {op : Op} (h : decode? code type = some op) :
    code = op.code ∧ (op.isTyped = true → type = op.typeByte) := by
  rw [decode?] at h
  -- one turn for each operation code
  iterate 28
    obtain ⟨rfl, h⟩ | h := or_of_ite_eq_some h
    · first
        | obtain rfl := Option.some.inj h
          exact ⟨rfl, nofun⟩
        | obtain ⟨t, ht, rfl⟩ := Option.map_eq_some_iff.mp h
          exact ⟨rfl, fun _ => ValueType.eq_of_ofCode? ht⟩
        | obtain ⟨p, hp, rfl⟩ := Option.map_eq_some_iff.mp h
          exact ⟨rfl, fun _ => TypePair.eq_of_ofCode? hp⟩
  cases h

/-! ## The loop -/

/-- Reads on from a position as long as there are bytes, behind the instructions read before. -/
def Bytes.readOn (bytes : Bytes) (position : Nat) (before : List Decoded) :
    Option (Except Error (List Decoded)) :=
  if position < bytes.length then
    match Listing.instruction position (bytes.drop position) with
    | .ok (d, rest) => bytes |>.readOn (bytes.length - rest.length) (before ++ [d])
    | .error e => some (.error e)
  else some (.ok before)
partial_fixpoint

namespace Listing

/-- Reads a whole file by the loop, if that ends. -/
def readFile (bytes : Bytes) : Option (Except Error (List Decoded)) :=
  if bytes.length < headerSize ∨ bytes.take fileMagic.length ≠ fileMagic then
    some (.error (.malformed 0 .noHeader))
  else if sizeField bytes ≠ bytes.length then
    some (.error (.malformed sizeOffset (.wrongSize (sizeField bytes) bytes.length)))
  else bytes.readOn headerSize []

/-! ## What an instruction is read from -/

/-- An instruction that was read, and the bytes that it was read from. -/
structure Chunk where
  read : Decoded
  bytes : Bytes

/-- The bytes are those of the instruction: it is what is read from them, with none left over, and
it is encoded as them again.  A type byte that does not tell anything may be another one; so may the
bytes of a string that are no text. -/
structure Chunk.Exact (c : Chunk) : Prop where
  reads : instruction c.read.offset c.bytes = .ok (c.read, [])
  code : ∀ resolved, (c.read.instruction.encode resolved)[0]? = c.bytes[0]?
  type : c.read.op.isTyped = true →
    ∀ resolved, (c.read.instruction.encode resolved)[1]? = c.bytes[1]?
  operand : (c.read.op = .const .string → Bytes.IsUtf8 (c.bytes.drop 4)) →
    ∀ resolved, (c.read.instruction.encode resolved).drop 2 = c.bytes.drop 2

/-- Instructions one behind the other divide bytes that begin at an offset among them. -/
structure Tiling (at_ : Nat) (bytes : Bytes) (ds : List Decoded) (chunks : List Chunk) : Prop where
  read : ds = chunks.map Chunk.read
  bytes : bytes = chunks.flatMap Chunk.bytes
  exact : ∀ c ∈ chunks, c.Exact
  offset : ∀ (n : Nat) (c : Chunk), chunks[n]? = some c →
    c.read.offset = at_ + ((chunks.take n).flatMap Chunk.bytes).length

variable {at_ : Nat} {bytes rest : Bytes} {op : Op}

/-! ## Operands -/

section Encoding

variable (resolved : Int32) (a b c d e f : UInt8)

theorem encodeOperand_int :
    Instruction.encodeOperand resolved (.int (Bytes.toUInt32 a b c d).toInt32) = [a, b, c, d] :=
  Bytes.ofUInt32_toUInt32 a b c d

theorem encodeOperand_float :
    Instruction.encodeOperand resolved (.float ⟨Bytes.toUInt32 a b c d⟩) = [a, b, c, d] :=
  Bytes.ofUInt32_toUInt32 a b c d

theorem encodeOperand_stack :
    Instruction.encodeOperand resolved
      (.stack (Bytes.toUInt32 a b c d).toInt32 (Bytes.toUInt16 e f)) = [a, b, c, d, e, f] := by
  show Bytes.ofUInt32 (Bytes.toUInt32 a b c d) ++ Bytes.ofUInt16 (Bytes.toUInt16 e f) = _
  rw [Bytes.ofUInt32_toUInt32, Bytes.ofUInt16_toUInt16]
  rfl

/-- The bytes of a text are encoded as themselves, behind their number. -/
theorem encodeOperand_string {text : String}
    (h : (Bytes.toUInt16 a b).toNat = (Bytes.ofText text).length) :
    Instruction.encodeOperand resolved (.str text) = a :: b :: Bytes.ofText text := by
  have hlt := (Bytes.toUInt16 a b).toNat_lt
  have hbytes : Instruction.stringBytes text = Bytes.ofText text :=
    List.take_of_length_le (by rw [← h, Instruction.maxString]; omega)
  show Bytes.ofUInt16 (UInt16.ofNat (Instruction.stringBytes text).length)
    ++ Instruction.stringBytes text = _
  rw [hbytes, ← h, UInt16.ofNat_toNat, Bytes.ofUInt16_toUInt16]
  rfl

end Encoding

/-- An operand is read from these bytes, whatever is behind them, and is encoded as them again. -/
structure OperandFrom (op : Op) (inner : Bytes) (x : DecodedOperand) : Prop where
  reads : ∀ at_ rest, operand op at_ (inner ++ rest) = .ok (x, rest)
  encodes : (op = .const .string → Bytes.IsUtf8 (inner.drop 2)) →
    ∀ resolved, Instruction.encodeOperand resolved x.operand = inner

theorem operandFrom_string {a b : UInt8} {inner : Bytes}
    (h : inner.length = (Bytes.toUInt16 a b).toNat) :
    OperandFrom (.const .string) (a :: b :: inner) (.str (Bytes.toText inner)) := by
  constructor
  · intro at_ rest
    show operand (.const .string) at_ (a :: b :: (inner ++ rest)) = _
    have hle : inner.length ≤ (inner ++ rest).length := by simp
    rw [operand, ← h, if_pos hle, List.take_left, List.drop_left]
  · intro hutf resolved
    obtain ⟨text, htext⟩ := hutf rfl
    obtain rfl : inner = Bytes.ofText text := htext
    show Instruction.encodeOperand resolved (.str (Bytes.toText (Bytes.ofText text))) = _
    rw [Bytes.toText_ofText]
    exact encodeOperand_string resolved a b h.symm

/-- All that reading an operand can come to: it takes some bytes, or the bytes end before. -/
theorem operand_cases (op : Op) (at_ : Nat) (bytes : Bytes) :
    (∃ x inner rest, bytes = inner ++ rest ∧ OperandFrom op inner x) ∨
    ∃ offset, operand op at_ bytes = .error (.malformed offset .endOfFile) ∧
      offset ≤ at_ + bytes.length := by
  cases op with
  | cpDownSp | cpTopSp | cpDownBp | cpTopBp =>
      match bytes with
      | a :: b :: c :: d :: e :: f :: rest =>
          exact .inl ⟨_, [a, b, c, d, e, f], rest, rfl, fun _ _ => rfl,
            fun _ r => encodeOperand_stack r a b c d e f⟩
      | [_, _, _, _] | [_, _, _, _, _] => exact .inr ⟨at_ + 4, rfl, by simp⟩
      | [] | [_] | [_, _] | [_, _, _] => exact .inr ⟨at_, rfl, Nat.le_add_right _ _⟩
  | movSp | jmp | jsr | jz =>
      match bytes with
      | a :: b :: c :: d :: rest =>
          exact .inl ⟨_, [a, b, c, d], rest, rfl, fun _ _ => rfl,
            fun _ r => encodeOperand_int r a b c d⟩
      | [] | [_] | [_, _] | [_, _, _] => exact .inr ⟨at_, rfl, Nat.le_add_right _ _⟩
  | const t =>
      cases t with
      | void | int | object =>
          match bytes with
          | a :: b :: c :: d :: rest =>
              exact .inl ⟨_, [a, b, c, d], rest, rfl, fun _ _ => rfl,
                fun _ r => encodeOperand_int r a b c d⟩
          | [] | [_] | [_, _] | [_, _, _] => exact .inr ⟨at_, rfl, Nat.le_add_right _ _⟩
      | float =>
          match bytes with
          | a :: b :: c :: d :: rest =>
              exact .inl ⟨_, [a, b, c, d], rest, rfl, fun _ _ => rfl,
                fun _ r => encodeOperand_float r a b c d⟩
          | [] | [_] | [_, _] | [_, _, _] => exact .inr ⟨at_, rfl, Nat.le_add_right _ _⟩
      | string =>
          match bytes with
          | a :: b :: rest =>
              by_cases hn : (Bytes.toUInt16 a b).toNat ≤ rest.length
              · refine .inl ⟨_, a :: b :: rest.take (Bytes.toUInt16 a b).toNat,
                  rest.drop (Bytes.toUInt16 a b).toNat, ?_,
                  operandFrom_string (List.length_take_of_le hn)⟩
                rw [List.cons_append, List.cons_append, List.take_append_drop]
              · refine .inr ⟨at_ + 2, ?_, by simp⟩
                rw [operand, if_neg hn]
          | [] | [_] => exact .inr ⟨at_, rfl, Nat.le_add_right _ _⟩
  | _ => exact .inl ⟨.none, [], bytes, rfl, fun _ _ => rfl, fun _ _ => rfl⟩

/-! ## Instructions -/

/-- All that reading an instruction can come to: it takes at least two bytes, or there is trouble in
the bytes or at their end. -/
theorem instruction_cases (at_ : Nat) (bytes : Bytes) :
    (∃ c : Chunk, ∃ rest, bytes = c.bytes ++ rest ∧ instruction at_ bytes = .ok (c.read, rest) ∧
      c.read.offset = at_ ∧ 2 ≤ c.bytes.length ∧ c.Exact) ∨
    ∃ offset cause, instruction at_ bytes = .error (.malformed offset cause) ∧
      offset ≤ at_ + bytes.length := by
  match bytes with
  | [] => exact .inr ⟨at_, .endOfFile, rfl, Nat.le_refl _⟩
  | [_] => exact .inr ⟨at_ + 1, .endOfFile, rfl, Nat.le_refl _⟩
  | code :: type :: bytes =>
      cases hop : Op.decode? code type with
      | none =>
          refine .inr ⟨at_, .unknownOpcode code type, ?_, Nat.le_add_right _ _⟩
          rw [instruction]
          simp only [hop]
      | some op =>
          obtain ⟨hcode, htype⟩ := Op.eq_of_decode? hop
          obtain ⟨x, inner, rest, rfl, hx⟩ | ⟨offset, hx, hle⟩ := operand_cases op (at_ + 2) bytes
          · have hread : ∀ rest, instruction at_ (code :: type :: (inner ++ rest))
                = .ok (⟨at_, op, x⟩, rest) :=
              fun rest => instruction_cons hop (hx.reads (at_ + 2) rest)
            have halone := hread []
            rw [List.append_nil] at halone
            refine .inl ⟨⟨⟨at_, op, x⟩, code :: type :: inner⟩, rest, rfl, hread rest, rfl,
              by simp, ?_⟩
            exact {
              reads := halone
              code := fun _ => congrArg some hcode.symm
              type := fun htyped _ => congrArg some (htype htyped).symm
              operand := hx.encodes }
          · refine .inr ⟨offset, .endOfFile, ?_, ?_⟩
            · rw [instruction]
              simp only [hop, hx]
              rfl
            · simp only [List.length_cons]
              omega

/-! ## Instructions one after the other -/

theorem Tiling.nil (at_ : Nat) : Tiling at_ [] [] [] where
  read := rfl
  bytes := rfl
  exact := List.forall_mem_nil _
  offset := by
    intro n c hn
    rw [List.getElem?_nil] at hn
    cases hn

theorem Tiling.cons {c : Chunk} {ds : List Decoded} {chunks : List Chunk} (hc : c.Exact)
    (hat : c.read.offset = at_) (h : Tiling (at_ + c.bytes.length) rest ds chunks) :
    Tiling at_ (c.bytes ++ rest) (c.read :: ds) (c :: chunks) where
  read := congrArg (c.read :: ·) h.read
  bytes := congrArg (c.bytes ++ ·) h.bytes
  exact := List.forall_mem_cons.mpr ⟨hc, h.exact⟩
  offset := by
    intro n c' hn
    cases n with
    | zero =>
        obtain rfl := Option.some.inj hn
        exact hat
    | succ n =>
        rw [h.offset n c' hn, List.take_succ_cons, List.flatMap_cons, List.length_append,
          Nat.add_assoc]

/-- A turn that reads an instruction goes on behind it. -/
theorem instructions_of_ok {fuel : Nat} {c : Chunk} (hc : 2 ≤ c.bytes.length)
    (h : instruction at_ (c.bytes ++ rest) = .ok (c.read, rest)) :
    instructions (fuel + 1) at_ (c.bytes ++ rest)
      = (instructions fuel (at_ + c.bytes.length) rest).map (c.read :: ·) := by
  have hne : c.bytes ++ rest ≠ [] := by
    intro hnil
    rw [(List.append_eq_nil_iff.mp hnil).1] at hc
    exact absurd hc (by decide)
  have hlength : (c.bytes ++ rest).length - rest.length = c.bytes.length := by simp
  rw [instructions, if_neg hne, h]
  show (instructions fuel (at_ + ((c.bytes ++ rest).length - rest.length)) rest >>= fun ds =>
    Except.ok (c.read :: ds)) = _
  rw [hlength]
  cases instructions fuel (at_ + c.bytes.length) rest <;> rfl

theorem instructions_of_error {fuel : Nat} {e : Error} (hne : bytes ≠ [])
    (h : instruction at_ bytes = .error e) : instructions (fuel + 1) at_ bytes = .error e := by
  rw [instructions, if_neg hne, h]
  rfl

/-- All that reading instructions can come to, by induction on the number of turns, which that of
the bytes is enough for. -/
theorem instructions_cases : ∀ {fuel : Nat} (at_ : Nat) {bytes : Bytes}, bytes.length ≤ fuel →
    (∃ ds chunks, instructions fuel at_ bytes = .ok ds ∧ Tiling at_ bytes ds chunks) ∨
    ∃ offset cause, instructions fuel at_ bytes = .error (.malformed offset cause) ∧
      offset ≤ at_ + bytes.length
  | 0, at_, bytes, hfuel => by
      obtain rfl := List.length_eq_zero_iff.mp (Nat.le_zero.mp hfuel)
      exact .inl ⟨[], [], rfl, .nil at_⟩
  | fuel + 1, at_, bytes, hfuel => by
      by_cases hne : bytes = []
      · subst hne
        exact .inl ⟨[], [], rfl, .nil at_⟩
      obtain ⟨c, rest, rfl, hread, hat, hlength, hexact⟩ | ⟨offset, cause, hread, hle⟩ :=
        instruction_cases at_ bytes
      · rw [List.length_append] at hfuel ⊢
        rw [instructions_of_ok hlength hread]
        have hfuel : rest.length ≤ fuel := by omega
        obtain ⟨ds, chunks, hrest, htiling⟩ | ⟨offset, cause, hrest, hle⟩ :=
          instructions_cases (at_ + c.bytes.length) hfuel
        · exact .inl ⟨_, _, by rw [hrest]; rfl, htiling.cons hexact hat⟩
        · exact .inr ⟨offset, cause, by rw [hrest]; rfl, by omega⟩
      · exact .inr ⟨offset, cause, instructions_of_error hne hread, hle⟩

/-- The loop ends, and with what the reader gives that has as many turns as there are bytes. -/
theorem readOn_eq_some {bytes : Bytes} : ∀ {fuel position : Nat} (before : List Decoded),
    position ≤ bytes.length → bytes.length - position ≤ fuel →
    bytes.readOn position before
      = some ((instructions fuel position (bytes.drop position)).map (before ++ ·))
  | 0, position, before, hposition, hfuel => by
      have hend : ¬ position < bytes.length := by omega
      rw [Bytes.readOn, if_neg hend]
      exact congrArg (fun ds => some (Except.ok ds)) (List.append_nil before).symm
  | fuel + 1, position, before, hposition, hfuel => by
      have hdrop : (bytes.drop position).length = bytes.length - position := List.length_drop
      rw [Bytes.readOn]
      by_cases hend : position < bytes.length
      · have hne : bytes.drop position ≠ [] := List.ne_nil_of_length_pos (by omega)
        rw [if_pos hend]
        obtain ⟨c, rest, hbytes, hread, -, hlength, -⟩ | ⟨offset, cause, hread, -⟩ :=
          instruction_cases position (bytes.drop position)
        · rw [hbytes, List.length_append] at hdrop
          have hnext : bytes.length - rest.length = position + c.bytes.length := by omega
          have hrest : bytes.drop (position + c.bytes.length) = rest := by
            rw [← List.drop_drop, hbytes, List.drop_left]
          have hfuel : bytes.length - (position + c.bytes.length) ≤ fuel := by omega
          have hloop := readOn_eq_some (before ++ [c.read]) (by omega) hfuel
          rw [hread]
          show bytes.readOn (bytes.length - rest.length) (before ++ [c.read]) = _
          rw [hbytes] at hread
          rw [hnext, hloop, hrest, hbytes, instructions_of_ok hlength hread]
          cases instructions fuel (position + c.bytes.length) rest with
          | ok ds =>
              exact congrArg (fun ds => some (Except.ok ds)) (List.append_assoc before [c.read] ds)
          | error e => rfl
        · rw [hread, instructions_of_error hne hread]
          rfl
      · have hnil : bytes.drop position = [] := List.drop_eq_nil_of_le (by omega)
        rw [if_neg hend, hnil]
        exact congrArg (fun ds => some (Except.ok ds)) (List.append_nil before).symm

/-! ## Files -/

/-- All that reading a file can come to. -/
theorem ofFile_cases (bytes : Bytes) :
    (∃ ds chunks, ofFile bytes = .ok ds ∧ headerSize ≤ bytes.length ∧
      bytes.take fileMagic.length = fileMagic ∧ sizeField bytes = bytes.length ∧
      Tiling headerSize (bytes.drop headerSize) ds chunks) ∨
    ∃ offset cause, ofFile bytes = .error (.malformed offset cause) ∧ offset ≤ bytes.length := by
  rw [ofFile]
  by_cases hheader : bytes.length < headerSize ∨ bytes.take fileMagic.length ≠ fileMagic
  · rw [if_pos hheader]
    exact .inr ⟨0, .noHeader, rfl, Nat.zero_le _⟩
  obtain ⟨hlength, hmagic⟩ := not_or.mp hheader
  rw [if_neg hheader]
  by_cases hsize : sizeField bytes ≠ bytes.length
  · rw [if_pos hsize]
    exact .inr ⟨sizeOffset, _, rfl, Nat.le_trans (by decide) (Nat.not_lt.mp hlength)⟩
  rw [if_neg hsize]
  have hdrop : (bytes.drop headerSize).length = bytes.length - headerSize := List.length_drop
  have hfuel : (bytes.drop headerSize).length ≤ bytes.length := by omega
  obtain ⟨ds, chunks, hread, htiling⟩ | ⟨offset, cause, hread, hle⟩ :=
    instructions_cases headerSize hfuel
  · exact .inl ⟨ds, chunks, hread, Nat.not_lt.mp hlength, not_not.mp hmagic, not_not.mp hsize,
      htiling⟩
  · exact .inr ⟨offset, cause, hread, by omega⟩

theorem readFile_eq_some (bytes : Bytes) : readFile bytes = some (ofFile bytes) := by
  rw [readFile, ofFile]
  split
  · rfl
  split
  · rfl
  next hheader _ =>
    have hlength := Nat.not_lt.mp (not_or.mp hheader).1
    have hfuel : bytes.length - headerSize ≤ bytes.length := Nat.sub_le _ _
    rw [readOn_eq_some [] hlength hfuel]
    cases instructions bytes.length headerSize (bytes.drop headerSize) <;> rfl

theorem exists_size {bytes : Bytes} (h : headerSize ≤ bytes.length) :
    ∃ a b c d rest, bytes.drop sizeOffset = a :: b :: c :: d :: rest := by
  have hdrop : (bytes.drop sizeOffset).length = bytes.length - sizeOffset := List.length_drop
  have hfour : 4 ≤ (bytes.drop sizeOffset).length := by
    rw [hdrop]
    exact Nat.le_sub_of_add_le h
  match bytes.drop sizeOffset, hfour with
  | a :: b :: c :: d :: rest, _ => exact ⟨a, b, c, d, rest, rfl⟩

/-- What stands behind the header does not change the size in it. -/
theorem sizeField_append {bytes : Bytes} (h : headerSize ≤ bytes.length) (tail : Bytes) :
    sizeField (bytes ++ tail) = sizeField bytes := by
  obtain ⟨a, b, c, d, rest, hdrop⟩ := exists_size h
  have hle : sizeOffset ≤ bytes.length := Nat.le_trans (by decide) h
  rw [sizeField, sizeField, List.drop_append_of_le_length hle, hdrop]
  rfl

/-- The size and the characters before it are all that there is in a header. -/
theorem take_headerSize {bytes : Bytes} (h : headerSize ≤ bytes.length)
    (hmagic : bytes.take fileMagic.length = fileMagic)
    (hsize : sizeField bytes = bytes.length) :
    bytes.take headerSize = fileHeader bytes.length := by
  obtain ⟨a, b, c, d, rest, hdrop⟩ := exists_size h
  rw [sizeField, hdrop] at hsize
  have hbytes : bytes = fileMagic ++ a :: b :: c :: d :: rest := by
    rw [← hmagic, ← hdrop]
    exact (List.take_append_drop _ _).symm
  have hfour : Bytes.ofUInt32Reversed (UInt32.ofNat bytes.length) = [a, b, c, d] := by
    rw [← hsize, UInt32.ofNat_toNat, Bytes.ofUInt32Reversed, Bytes.ofUInt32_toUInt32]
    rfl
  rw [fileHeader, hfour]
  conv => lhs; rw [hbytes]
  rfl

/-- Of two files one of which begins with the other, one does not have the size that is in its
header. -/
theorem eq_nil_of_sizeField {bytes tail : Bytes} (h : headerSize ≤ bytes.length)
    (hsize : sizeField bytes = bytes.length)
    (hsize' : sizeField (bytes ++ tail) = (bytes ++ tail).length) : tail = [] := by
  rw [sizeField_append h, hsize, List.length_append] at hsize'
  exact List.eq_nil_of_length_eq_zero (by omega)

/-- What there is to say of a file that was accepted. -/
structure Accounted (bytes : Bytes) (ds : List Decoded) : Prop where
  header : bytes.take headerSize = fileHeader bytes.length
  tiling : ∃ chunks, Tiling headerSize (bytes.drop headerSize) ds chunks
  cut : ∀ n < bytes.length, ∃ offset cause,
    ofFile (bytes.take n) = .error (.malformed offset cause)
  continued : ∀ tail, tail ≠ [] → ∃ offset cause,
    ofFile (bytes ++ tail) = .error (.malformed offset cause)

/-- Whatever a file holds, the loop over it ends, an error names a place in it or its end, and what
is accepted is accounted for, byte by byte; cut short or continued it is accepted no more. -/
theorem ofFile_accounts (bytes : Bytes) :
    readFile bytes = some (ofFile bytes) ∧
    (∀ e, ofFile bytes = .error e →
      ∃ offset cause, e = .malformed offset cause ∧ offset ≤ bytes.length) ∧
    ∀ ds, ofFile bytes = .ok ds → Accounted bytes ds := by
  refine ⟨readFile_eq_some bytes, ?_⟩
  obtain ⟨ds, chunks, hread, hlength, hmagic, hsize, htiling⟩ | ⟨offset, cause, hread, hle⟩ :=
    ofFile_cases bytes
  · rw [hread]
    refine ⟨nofun, ?_⟩
    rintro _ ⟨⟩
    refine ⟨take_headerSize hlength hmagic hsize, ⟨chunks, htiling⟩, ?_, ?_⟩
    · intro n hn
      obtain ⟨_, _, _, hlength', -, hsize', -⟩ | ⟨offset, cause, hcut, -⟩ :=
        ofFile_cases (bytes.take n)
      · have hnil : bytes.drop n = [] :=
          eq_nil_of_sizeField hlength' hsize' (by rwa [List.take_append_drop])
        exact absurd (List.drop_eq_nil_iff.mp hnil) (Nat.not_le.mpr hn)
      · exact ⟨offset, cause, hcut⟩
    · intro tail htail
      obtain ⟨_, _, _, -, -, hsize', -⟩ | ⟨offset, cause, hcontinued, -⟩ :=
        ofFile_cases (bytes ++ tail)
      · exact absurd (eq_nil_of_sizeField hlength hsize hsize') htail
      · exact ⟨offset, cause, hcontinued⟩
  · rw [hread]
    refine ⟨?_, nofun⟩
    rintro _ ⟨⟩
    exact ⟨offset, cause, rfl, hle⟩

end Listing
end Nss
