/-
# Cutting up printed words

The lexer gives back the words that were printed, one token for each of them, and notes no problem.
Every word is read up to the blank behind it and no further: that is shown class by class, and by
induction on the words of all that is printed.
-/
import Nss.Proofs.Printing.Printer
import Mathlib.Tactic.Common

namespace Nss

/-! ## Runs of characters -/

/-- A run goes on up to the first character outside its class. -/
theorem run_append {p : Char → Bool} {cs : List Char} {d : Char} (rest : List Char)
    (hcs : ∀ c ∈ cs, p c = true) (hd : p d = false) : run p (cs ++ d :: rest) = cs := by
  rw [run, List.takeWhile_append_of_pos hcs, List.takeWhile_cons, hd]
  simp

/-- A character of a class is none of those outside. -/
theorem ne_of_class {p : Char → Bool} {c d : Char} (hc : p c = true) (hd : p d = false) : c ≠ d := by
  rintro rfl
  rw [hc] at hd
  cases hd

theorem not_isTokenBlank_of_class {p : Char → Bool} {c : Char} (hc : p c = true)
    (hspace : p ' ' = false) (htab : p '\t' = false) (hline : p '\n' = false)
    (hreturn : p '\r' = false) : isTokenBlank c = false := by
  simp only [isTokenBlank, Bool.or_eq_false_iff, decide_eq_false_iff_not]
  exact ⟨⟨⟨ne_of_class hc hspace, ne_of_class hc htab⟩, ne_of_class hc hline⟩,
    ne_of_class hc hreturn⟩

theorem not_isDigit_of_isIdentStart {c : Char} (hc : isIdentStart c = true) : isDigit c = false := by
  simp only [isIdentStart, isLetter, isDigit, Bool.or_eq_true, Bool.and_eq_true, decide_eq_true_eq,
    Bool.and_eq_false_iff, decide_eq_false_iff_not, Char.le_def, UInt32.le_iff_toNat_le] at hc ⊢
  rcases hc with (hc | hc) | rfl
  · right
    have : 'a'.val.toNat = 97 := rfl
    have : '9'.val.toNat = 57 := rfl
    omega
  · right
    have : 'A'.val.toNat = 65 := rfl
    have : '9'.val.toNat = 57 := rfl
    omega
  · right
    decide

/-! ## Numbers -/

/-- The characters of a number without a sign: digits, and behind them maybe a point and more
digits. -/
def IsDecimal (cs : List Char) : Prop :=
  ∃ whole, whole ≠ [] ∧ (∀ c ∈ whole, isDigit c = true) ∧
    (cs = whole ∨ ∃ fraction, (∀ c ∈ fraction, isDigit c = true) ∧ cs = whole ++ '.' :: fraction)

theorem IsDecimal.eq_cons {cs : List Char} (h : IsDecimal cs) :
    ∃ c more, cs = c :: more ∧ isDigit c = true ∧ ∀ d ∈ more, isDigit d = true ∨ d = '.' := by
  obtain ⟨whole, hwhole, hdigits, hshape⟩ := h
  obtain ⟨c, more, rfl⟩ := List.exists_cons_of_ne_nil hwhole
  have hmore : ∀ d ∈ more, isDigit d = true ∨ d = '.' := fun d hd => .inl (hdigits d (.tail c hd))
  rcases hshape with rfl | ⟨fraction, hfraction, rfl⟩
  · exact ⟨c, more, rfl, hdigits c (.head more), hmore⟩
  · refine ⟨c, more ++ '.' :: fraction, rfl, hdigits c (.head more), fun d hd => ?_⟩
    rcases List.mem_append.mp hd with hd | hd
    · exact hmore d hd
    · rcases List.mem_cons.mp hd with rfl | hd
      · exact .inr rfl
      · exact .inl (hfraction d hd)

namespace Binary32

theorem isNegative_eq_msb (x : Binary32) : x.isNegative = x.bits.toBitVec.msb := by
  rw [isNegative, BitVec.msb_eq_decide]
  rfl

theorem isNegative_neg (x : Binary32) : x.neg.isNegative = !x.isNegative := by
  rw [isNegative_eq_msb, isNegative_eq_msb, neg, UInt32.toBitVec_xor, BitVec.msb_xor]
  cases x.bits.toBitVec.msb <;> rfl

theorem magnitude_neg (x : Binary32) : x.neg.magnitude = x.magnitude := by
  have hmod := Nat.xor_mod_two_pow (a := x.bits.toNat) (b := 0x80000000) (n := 31)
  rw [magnitude, magnitude, neg, UInt32.toNat_xor]
  simpa using hmod

theorem neg_neg (x : Binary32) : x.neg.neg = x := by
  rw [neg, neg, UInt32.xor_assoc]
  simp

theorem isNegative_unsigned (x : Binary32) : x.unsigned.isNegative = false := by
  rw [unsigned]
  cases h : x.isNegative with
  | false => simpa using h
  | true => simp [isNegative_neg, h]

theorem magnitude_unsigned (x : Binary32) : x.unsigned.magnitude = x.magnitude := by
  rw [unsigned]
  split
  · exact x.magnitude_neg
  · rfl

theorem natDigits_ne_nil (n : Nat) : natDigits n ≠ [] := Nat.toDigits_ne_nil

theorem isDigit_of_mem_natDigits {n : Nat} {c : Char} (hc : c ∈ natDigits n) : isDigit c = true := by
  have h := Nat.isDigit_of_mem_toDigits (by decide) (by decide) hc
  simp only [Char.isDigit, Bool.and_eq_true, decide_eq_true_eq] at h
  simp only [isDigit, Bool.and_eq_true, decide_eq_true_eq]
  exact h

/-- The digits of a number stand for it. -/
theorem digitsValue_natDigits (n : Nat) : digitsValue (natDigits n) = n := Nat.ofDigitChars_ten_toDigits

/-- In positional notation at least one digit stands before the point. -/
theorem isDecimal_positional (k : Nat) (j : Int) : IsDecimal (positional k j) := by
  have hzero {n : Nat} {c : Char} (hc : c ∈ List.replicate n '0') : isDigit c = true := by
    obtain rfl := (List.mem_replicate.mp hc).2
    decide
  rw [positional]
  split
  · refine ⟨_, ?_, ?_, .inl rfl⟩
    · simp [natDigits_ne_nil]
    · intro c hc
      rcases List.mem_append.mp hc with hc | hc
      · exact isDigit_of_mem_natDigits hc
      · exact hzero hc
  · dsimp only
    generalize hpadded : List.replicate ((-j).toNat + 1 - (natDigits k).length) '0' ++ natDigits k
      = padded
    have hdigits : ∀ c ∈ padded, isDigit c = true := by
      intro c hc
      rw [← hpadded] at hc
      rcases List.mem_append.mp hc with hc | hc
      · exact hzero hc
      · exact isDigit_of_mem_natDigits hc
    have hlength : (-j).toNat + 1 ≤ padded.length := by
      rw [← hpadded, List.length_append, List.length_replicate]
      omega
    refine ⟨padded.take (padded.length - (-j).toNat), ?_, ?_,
      .inr ⟨padded.drop (padded.length - (-j).toNat), ?_, rfl⟩⟩
    · intro hnil
      have hempty := congrArg List.length hnil
      rw [List.length_take, List.length_nil] at hempty
      omega
    · exact fun c hc => hdigits c (List.mem_of_mem_take hc)
    · exact fun c hc => hdigits c (List.mem_of_mem_drop hc)

/-- A finite number without a sign is written as a decimal. -/
theorem isDecimal_text {x : Binary32} (hx : x.magnitude < infinityMagnitude) :
    IsDecimal x.unsigned.text.toList := by
  have hnan : ¬ infinityMagnitude < x.magnitude := by omega
  have hinfinite : x.magnitude ≠ infinityMagnitude := by omega
  simp only [text, isNegative_unsigned, magnitude_unsigned, hnan, hinfinite, if_false,
    Bool.false_eq_true, List.nil_append]
  split
  · exact ⟨['0'], nofun, List.forall_mem_singleton.mpr rfl, .inl rfl⟩
  · rw [String.toList_ofList]
    exact isDecimal_positional _ _

end Binary32

namespace Lexeme

theorem read_digit (start : Nat) {c : Char} (hc : isDigit c = true) {rest : List Char}
    (hrest : ∀ x ∈ rest.head?, x ≠ 'x' ∧ x ≠ 'X') :
    read start c rest = decimal start (c :: rest) := by
  have hblank := not_isTokenBlank_of_class hc rfl rfl rfl rfl
  have hslash : c ≠ '/' := ne_of_class hc (by decide)
  have hnumber : number start c rest = decimal start (c :: rest) := by
    unfold number
    split
    · next x more =>
        obtain ⟨hx, hX⟩ := hrest x rfl
        rw [if_neg (by simp [hx, hX])]
    · rfl
  simp [read, hblank, hslash, hc, hnumber]

theorem decimalBody_whole {whole : List Char} (hwhole : ∀ c ∈ whole, isDigit c = true) {d : Char}
    (rest : List Char) (hdigit : isDigit d = false) (hpoint : d ≠ '.') :
    decimalBody (whole ++ d :: rest) = (whole, false) := by
  rw [decimalBody, run_append rest hwhole hdigit, List.drop_left]
  split
  · next hcons => exact absurd (List.cons.inj hcons).1 hpoint
  · rfl

theorem decimalBody_pointed {whole fraction : List Char} (hwhole : ∀ c ∈ whole, isDigit c = true)
    (hfraction : ∀ c ∈ fraction, isDigit c = true) {d : Char} (rest : List Char)
    (hdigit : isDigit d = false) :
    decimalBody (whole ++ '.' :: (fraction ++ d :: rest)) = (whole ++ '.' :: fraction, true) := by
  rw [decimalBody, run_append _ hwhole (by decide), List.drop_left]
  show (whole ++ '.' :: run isDigit (fraction ++ d :: rest), true) = _
  rw [run_append rest hfraction hdigit]

/-- A number is read up to the first character that is no part of it. -/
theorem decimalBody_of_isDecimal {cs : List Char} (h : IsDecimal cs) {d : Char} (rest : List Char)
    (hdigit : isDigit d = false) (hpoint : d ≠ '.') :
    ∃ pointed, decimalBody (cs ++ d :: rest) = (cs, pointed) := by
  obtain ⟨whole, -, hwhole, rfl | ⟨fraction, hfraction, rfl⟩⟩ := h
  · exact ⟨false, decimalBody_whole hwhole rest hdigit hpoint⟩
  · refine ⟨true, ?_⟩
    rw [List.append_assoc]
    exact decimalBody_pointed hwhole hfraction rest hdigit

end Lexeme

/-- A script in words, without places. -/
def Lexed.ofWords (ws : List Word) : Lexed where
  tokens := ws.map Word.token
  ending := .ending 0
  troubles := []

/-! ## One word -/

theorem TokenKind.ofWord_ne (s : String) : ofWord s ≠ stringLiteral ∧ ofWord s ≠ floatLiteral := by
  unfold ofWord
  split <;> exact ⟨nofun, nofun⟩

namespace Word

/-- A word that the lexer cuts off where a blank follows. -/
def CutOff (w : Word) : Prop :=
  ∃ c more, w.written = c :: more ∧ ∀ start rest, ∃ t : Token,
    Lexeme.read start c (more ++ ' ' :: rest) = ⟨more.length, .token t⟩ ∧ t.word = w

theorem written_eq_text {w : Word} (hstring : w.kind ≠ .stringLiteral)
    (hfloat : w.kind ≠ .floatLiteral) : w.written = w.text.toList := by
  rw [written]
  split
  · contradiction
  · contradiction
  · rfl

/-- A word all of whose characters make its token. -/
theorem cutOff_of_plain {w : Word} {c : Char} {more : List Char}
    (hstring : w.kind ≠ .stringLiteral) (hfloat : w.kind ≠ .floatLiteral)
    (htext : w.text.toList = c :: more)
    (hread : ∀ start rest,
      Lexeme.read start c (more ++ ' ' :: rest) = Lexeme.plain start w.kind c more) :
    w.CutOff := by
  refine ⟨c, more, (written_eq_text hstring hfloat).trans htext, fun start rest => ?_⟩
  refine ⟨_, hread start rest, ?_⟩
  rw [Token.word, ← htext, String.ofList_toList]

/-- A word of letters, underscores and digits. -/
theorem cutOff_word {s : String} (hs : isWord s = true) : CutOff ⟨TokenKind.ofWord s, s⟩ := by
  rw [isWord] at hs
  split at hs
  · cases hs
  rename_i c more htext
  obtain ⟨hc, hmore⟩ := Bool.and_eq_true_iff.mp hs
  refine cutOff_of_plain (TokenKind.ofWord_ne s).1 (TokenKind.ofWord_ne s).2 htext fun start rest => ?_
  have hblank := not_isTokenBlank_of_class hc rfl rfl rfl rfl
  have hslash : c ≠ '/' := ne_of_class hc (by decide)
  have hpoint : c ≠ '.' := ne_of_class hc (by decide)
  have hdigit := not_isDigit_of_isIdentStart hc
  have hrun : run isIdentRest (more ++ ' ' :: rest) = more :=
    run_append rest (List.all_eq_true.mp hmore) (by decide)
  have hall : String.ofList (c :: more) = s := by rw [← htext, String.ofList_toList]
  simp [Lexeme.read, hblank, hslash, hpoint, hdigit, hc, Lexeme.word, hrun, hall]

/-- The characters of a number hold no letter that would make it a hexadecimal one. -/
theorem head?_ne_of_digits {more rest : List Char} {d : Char}
    (hmore : ∀ c ∈ more, isDigit c = true ∨ c = '.') (hd : d ≠ 'x' ∧ d ≠ 'X') :
    ∀ x ∈ (more ++ d :: rest).head?, x ≠ 'x' ∧ x ≠ 'X' := by
  intro x hx
  cases more with
  | nil =>
      obtain rfl := Option.some.inj hx
      exact hd
  | cons c more =>
      obtain rfl := Option.some.inj hx
      rcases hmore c (.head more) with hc | rfl
      · exact ⟨ne_of_class hc (by decide), ne_of_class hc (by decide)⟩
      · decide

theorem cutOff_integer (n : Nat) : (integer n).CutOff := by
  obtain ⟨c, more, hcons⟩ := List.exists_cons_of_ne_nil (Binary32.natDigits_ne_nil n)
  have hall : ∀ d ∈ c :: more, isDigit d = true := by
    rw [← hcons]
    exact fun d hd => Binary32.isDigit_of_mem_natDigits hd
  have hwritten : (integer n).written = c :: more := by
    rw [← hcons]
    exact String.toList_ofList
  refine ⟨c, more, hwritten, fun start rest => ?_⟩
  have hbody : Lexeme.decimalBody (c :: (more ++ ' ' :: rest)) = (c :: more, false) :=
    Lexeme.decimalBody_whole hall rest (by decide) (by decide)
  have hmore : ∀ d ∈ more, isDigit d = true ∨ d = '.' := fun d hd => .inl (hall d (.tail c hd))
  rw [Lexeme.read_digit start (hall c (.head more)) (head?_ne_of_digits hmore (by decide))]
  simp [Lexeme.decimal, hbody, Token.word, integer, hcons]

theorem cutOff_float {x : Binary32} (hx : x.magnitude < Binary32.infinityMagnitude) :
    (float x.unsigned).CutOff := by
  have hdecimal := Binary32.isDecimal_text hx
  obtain ⟨c, more, hcons, hc, hmore⟩ := hdecimal.eq_cons
  have hwritten : (float x.unsigned).written = c :: (more ++ ['f']) := by
    show x.unsigned.text.toList ++ ['f'] = _
    rw [hcons]
    rfl
  refine ⟨c, more ++ ['f'], hwritten, fun start rest => ?_⟩
  obtain ⟨pointed, hbody⟩ := Lexeme.decimalBody_of_isDecimal hdecimal (' ' :: rest)
    (by decide : isDigit 'f' = false) (by decide)
  rw [hcons] at hbody
  have hassoc : more ++ ['f'] ++ ' ' :: rest = more ++ 'f' :: ' ' :: rest := by simp
  rw [hassoc, Lexeme.read_digit start hc (head?_ne_of_digits hmore (by decide)), Lexeme.decimal]
  rw [List.cons_append] at hbody
  have htext : String.ofList (c :: more) = x.unsigned.text := by rw [← hcons, String.ofList_toList]
  simp [hbody, Token.word, float, htext]

/-! ### Texts -/

/-- The closing quote of a text is found behind its escapes. -/
theorem stringBody_escape (cs rest : List Char) :
    Lexeme.stringBody (escape cs ++ '"' :: rest) = (escape cs, true) := by
  induction cs with
  | nil => simp [escape, Lexeme.stringBody]
  | cons c cs ih =>
      rw [escape]
      split
      · simp [Lexeme.stringBody, ih]
      · split
        · simp [Lexeme.stringBody, ih]
        · split
          · simp [Lexeme.stringBody, ih]
          · simp [Lexeme.stringBody, *]

theorem cutOff_string (s : String) : (string s).CutOff := by
  have hwritten : (string s).written = '"' :: (escape s.toList ++ ['"']) := by
    show '"' :: (String.ofList (escape s.toList)).toList ++ ['"'] = _
    rw [String.toList_ofList]
    rfl
  refine ⟨'"', escape s.toList ++ ['"'], hwritten, fun start rest => ?_⟩
  have hassoc : escape s.toList ++ ['"'] ++ ' ' :: rest = escape s.toList ++ '"' :: ' ' :: rest := by
    simp
  have hread : Lexeme.read start '"' (escape s.toList ++ '"' :: ' ' :: rest)
      = Lexeme.string start (escape s.toList ++ '"' :: ' ' :: rest) := by
    simp [Lexeme.read, isTokenBlank, isDigit, isIdentStart, isLetter]
  rw [hassoc, hread]
  simp [Lexeme.string, stringBody_escape, Token.word, string]

/-- A word of a kind that has only one. -/
theorem cutOff_mark {kind : TokenKind} (h : kind.spelling ≠ "") : (mark kind).CutOff := by
  cases kind
  case ifWord => exact cutOff_word (s := "if") (by decide)
  case elseWord => exact cutOff_word (s := "else") (by decide)
  case whileWord => exact cutOff_word (s := "while") (by decide)
  case returnWord => exact cutOff_word (s := "return") (by decide)
  case eof | ident | intLiteral | hexLiteral | floatLiteral | stringLiteral | hashInclude =>
    exact absurd rfl h
  all_goals exact cutOff_of_plain nofun nofun (by rfl) fun start rest => by rfl

theorem cutOff_name {name : String} (h : isName name = true) : (ident name).CutOff := by
  simp only [isName, Bool.and_eq_true, decide_eq_true_eq] at h
  obtain ⟨⟨⟨hword, hkind⟩, -⟩, -⟩ := h
  have hcut := cutOff_word hword
  rw [hkind] at hcut
  exact hcut

theorem cutOff_type (type : ValueType) : (ident type.name).CutOff := by
  cases type
  case void => exact cutOff_word (s := "void") (by decide)
  case int => exact cutOff_word (s := "int") (by decide)
  case float => exact cutOff_word (s := "float") (by decide)
  case string => exact cutOff_word (s := "string") (by decide)
  case object => exact cutOff_word (s := "object") (by decide)

/-! ## All words -/

/-- Words all of which the lexer cuts off where a blank follows. -/
def AllCutOff (ws : List Word) : Prop := ∀ w ∈ ws, w.CutOff

namespace AllCutOff

variable {w : Word} {ws vs : List Word}

theorem nil : AllCutOff [] := nofun

theorem cons (hw : w.CutOff) (hws : AllCutOff ws) : AllCutOff (w :: ws) :=
  List.forall_mem_cons.mpr ⟨hw, hws⟩

theorem single (hw : w.CutOff) : AllCutOff [w] := .cons hw .nil

theorem append (hvs : AllCutOff vs) (hws : AllCutOff ws) : AllCutOff (vs ++ ws) :=
  List.forall_mem_append.mpr ⟨hvs, hws⟩

theorem signed (hw : w.CutOff) (negative : Bool) : AllCutOff (Word.signed negative w) := by
  cases negative with
  | false => exact .single hw
  | true => exact .cons (cutOff_mark (by decide)) (.single hw)

theorem parenthesized (hws : AllCutOff ws) : AllCutOff (Word.parenthesized ws) :=
  .append (.cons (cutOff_mark (by decide)) hws) (.single (cutOff_mark (by decide)))

end AllCutOff

/-- Where words are printed, the lexer finds these words and no problem. -/
theorem all_print {ws : List Word} (hws : AllCutOff ws) (start : Nat) :
    ((Lexeme.all start (print ws)).filterMap Yield.token?).map Token.word = ws ∧
      (Lexeme.all start (print ws)).filterMap Yield.trouble? = [] := by
  induction ws generalizing start with
  | nil =>
      have hnil : Lexeme.all start (print []) = [] := by
        rw [print, List.flatMap_nil, Lexeme.all]
      simp [hnil]
  | cons w rest ih =>
      obtain ⟨hword, hrest⟩ := List.forall_mem_cons.mp hws
      obtain ⟨c, more, hwritten, hread⟩ := hword
      have hprint : print (w :: rest) = c :: (more ++ ' ' :: print rest) := by
        simp [print, hwritten]
      obtain ⟨t, ht, htw⟩ := hread start (print rest)
      -- the word itself, then the blank behind it
      have hall : ∃ stop, Lexeme.all start (print (w :: rest))
          = .token t :: .skipped :: Lexeme.all stop (print rest) := by
        rw [hprint, Lexeme.all, ht, List.drop_left, Lexeme.all]
        exact ⟨_, rfl⟩
      obtain ⟨stop, hall⟩ := hall
      obtain ⟨htokens, htroubles⟩ := ih hrest stop
      rw [hall]
      exact ⟨by simp [List.filterMap_cons, Yield.token?, htw, htokens],
        by simpa [List.filterMap_cons, Yield.trouble?] using htroubles⟩

theorem ofSource_print {ws : List Word} (hws : AllCutOff ws) :
    (Lexed.ofSource (String.ofList (print ws))).unplaced = .ofWords ws := by
  obtain ⟨htokens, htroubles⟩ := all_print hws 0
  rw [Lexed.unplaced, Token.map_unplaced, Lexed.ofSource]
  dsimp only
  rw [String.toList_ofList, htokens, htroubles]
  rfl

end Word

/-! ## Words of declarations -/

open Word (AllCutOff cutOff_mark cutOff_name)

namespace Expr

mutual

theorem cutOff_words : ∀ (e : Expr), e.isPrintable = true → ∀ n, AllCutOff (e.words n)
  | int _ _, _, _ => .signed (Word.cutOff_integer _) _
  | float v _, he, _ => by
      have hfinite : v.magnitude < Binary32.infinityMagnitude :=
        of_decide_eq_true (Bool.and_eq_true_iff.mp he).1
      exact .signed (Word.cutOff_float hfinite) _
  | string s _, _, _ => .single (Word.cutOff_string s)
  | object v _, _, _ => by
      rw [words]
      split
      · exact .single (Word.cutOff_word (s := "OBJECT_SELF") (by decide))
      · exact .single (Word.cutOff_word (s := "OBJECT_INVALID") (by decide))
  | ident _ _, he, _ => .single (cutOff_name he)
  | call _ args _, he, _ => by
      obtain ⟨hname, hargs⟩ := Bool.and_eq_true_iff.mp he
      exact .cons (cutOff_name hname) (.parenthesized (cutOff_argWords args hargs))
  | unary op x _, he, _ => by
      refine .cons (cutOff_mark ?_) (cutOff_words x (Bool.and_eq_true_iff.mp he).2 0)
      cases op <;> decide
  | binary op l r _, he, n => by
      obtain ⟨hl, hr⟩ := Bool.and_eq_true_iff.mp he
      have hop : op.kind.spelling ≠ "" := by
        cases op <;> decide
      have hinner : AllCutOff (l.words (op.looseness + 1) ++ .mark op.kind :: r.words op.looseness) :=
        .append (cutOff_words l hl _) (.cons (cutOff_mark hop) (cutOff_words r hr _))
      rw [words]
      split
      · exact hinner
      · exact .parenthesized hinner

theorem cutOff_argWords : ∀ (es : List Expr), allPrintable es = true → AllCutOff (argWords es)
  | [], _ => .nil
  | e :: rest, h => by
      obtain ⟨he, hrest⟩ := Bool.and_eq_true_iff.mp h
      exact .append (cutOff_words e he 6) (cutOff_moreArgWords rest hrest)

theorem cutOff_moreArgWords : ∀ (es : List Expr), allPrintable es = true →
    AllCutOff (moreArgWords es)
  | [], _ => .nil
  | e :: rest, h => by
      obtain ⟨he, hrest⟩ := Bool.and_eq_true_iff.mp h
      exact .append (.cons (cutOff_mark (by decide)) (cutOff_words e he 6))
        (cutOff_moreArgWords rest hrest)

end

/-- The words of a condition, with the one before it. -/
theorem cutOff_condition {kind : TokenKind} (hkind : kind.spelling ≠ "") {cond : Expr}
    (h : cond.isPrintable = true) :
    AllCutOff (.mark kind :: Word.parenthesized (cond.words 6)) :=
  .cons (cutOff_mark hkind) (.parenthesized (cond.cutOff_words h 6))

/-- The words of an expression, with the semicolon behind it. -/
theorem cutOff_ended {value : Expr} (h : value.isPrintable = true) :
    AllCutOff (value.words 6 ++ [.mark .semi]) :=
  .append (value.cutOff_words h 6) (.single (cutOff_mark (by decide)))

end Expr

theorem VarDecl.cutOff_words {decl : VarDecl} (h : decl.isPrintable = true) :
    AllCutOff decl.words := by
  simp only [isPrintable, Bool.and_eq_true] at h
  obtain ⟨⟨-, hname⟩, hinit⟩ := h
  have hvalue : AllCutOff (initWords decl.init) := by
    cases hdecl : decl.init with
    | none => exact .nil
    | some e =>
        rw [hdecl] at hinit
        exact .cons (cutOff_mark (by decide)) (e.cutOff_words hinit 6)
  exact .append (.cons (Word.cutOff_type _) (.cons (cutOff_name hname) hvalue))
    (.single (cutOff_mark (by decide)))

namespace Stmt

mutual

theorem cutOff_words : ∀ (s : Stmt), s.isPrintable = true → AllCutOff s.words
  | block body, hs => .append (.cons (cutOff_mark (by decide)) (cutOff_allWords body hs))
      (.single (cutOff_mark (by decide)))
  | var decl, hs => decl.cutOff_words hs
  | assign _ value _, hs => by
      obtain ⟨hname, hvalue⟩ := Bool.and_eq_true_iff.mp hs
      exact .cons (cutOff_name hname) (.cons (cutOff_mark (by decide)) (value.cutOff_ended hvalue))
  | expr value, hs => value.cutOff_ended hs
  | ifThen cond body, hs => by
      obtain ⟨hcond, hbody⟩ := Bool.and_eq_true_iff.mp hs
      exact .append (cond.cutOff_condition (by decide) hcond) (cutOff_words body hbody)
  | ifElse cond body other, hs => by
      simp only [isPrintable, Bool.and_eq_true] at hs
      obtain ⟨⟨⟨hcond, hbody⟩, hother⟩, -⟩ := hs
      exact .append (.append (cond.cutOff_condition (by decide) hcond) (cutOff_words body hbody))
        (.cons (cutOff_mark (by decide)) (cutOff_words other hother))
  | loop cond body, hs => by
      obtain ⟨hcond, hbody⟩ := Bool.and_eq_true_iff.mp hs
      exact .append (cond.cutOff_condition (by decide) hcond) (cutOff_words body hbody)
  | ret none _, _ => .cons (cutOff_mark (by decide)) (.single (cutOff_mark (by decide)))
  | ret (some value) _, hs => .cons (cutOff_mark (by decide)) (value.cutOff_ended hs)

theorem cutOff_allWords : ∀ (ss : List Stmt), allPrintable ss = true → AllCutOff (allWords ss)
  | [], _ => .nil
  | s :: rest, h => by
      obtain ⟨hs, hrest⟩ := Bool.and_eq_true_iff.mp h
      exact .append (cutOff_words s hs) (cutOff_allWords rest hrest)

end

end Stmt

theorem Param.cutOff_words {p : Param} (h : p.isPrintable = true) : AllCutOff p.words :=
  .cons (Word.cutOff_type _) (.single (cutOff_name (Bool.and_eq_true_iff.mp h).2))

namespace FunctionDecl

theorem cutOff_paramWords {ps : List Param} (h : ps.all Param.isPrintable = true) :
    AllCutOff (paramWords ps) := by
  have hall := List.all_eq_true.mp h
  cases ps with
  | nil => exact .nil
  | cons p more =>
      refine .append (Param.cutOff_words (hall p (.head _))) ?_
      intro w hw
      obtain ⟨q, hq, hwq⟩ := List.mem_flatMap.mp hw
      have hwords : AllCutOff (.mark .comma :: q.words) :=
        .cons (cutOff_mark (by decide)) (Param.cutOff_words (hall q (.tail p hq)))
      exact hwords w hwq

theorem cutOff_words {decl : FunctionDecl} (h : decl.isPrintable = true) : AllCutOff decl.words := by
  simp only [isPrintable, Bool.and_eq_true] at h
  obtain ⟨⟨hname, hparams⟩, hbody⟩ := h
  refine .append (.cons (Word.cutOff_type _) (.cons (cutOff_name hname)
    (.parenthesized (cutOff_paramWords hparams)))) ?_
  cases hdecl : decl.body with
  | none => exact .single (cutOff_mark (by decide))
  | some body =>
      rw [hdecl] at hbody
      exact (Stmt.block body).cutOff_words hbody

end FunctionDecl

/-- All words of a printable declaration are cut off by the lexer. -/
theorem Declaration.cutOff_words {decl : Declaration} (h : decl.isPrintable = true) :
    AllCutOff decl.words := by
  cases decl with
  | global decl => exact VarDecl.cutOff_words h
  | function decl => exact FunctionDecl.cutOff_words h

end Nss
