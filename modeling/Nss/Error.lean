/-
# What stops a compilation

Unlike a diagnostic, which is about a script, an error ends the operation that meets it.
-/
import Nss.Source.Problem

namespace Nss

/-- Why a file cannot be opened, read or written. -/
inductive FileTrouble where
  | notFound
  | notDirectory
  | isDirectory
  /-- A name, or a whole path, has too many bytes. -/
  | nameTooLong
  | nulInName
deriving DecidableEq, Repr, Inhabited

/-- The wording of a trouble, that of the operating system where it is the one to refuse. -/
def FileTrouble.message : FileTrouble → String
  | notFound => "No such file or directory (os error 2)"
  | notDirectory => "Not a directory (os error 20)"
  | isDirectory => "Is a directory (os error 21)"
  | nameTooLong => "File name too long (os error 36)"
  | nulInName => "file name contained an unexpected NUL byte"

/-- Why a byte string is no compiled script. -/
inductive DecodeTrouble where
  | noHeader
  /-- The size field does not give the size of the file. -/
  | wrongSize (said has : Nat)
  | endOfFile
  | unknownOpcode (opcode type : UInt8)
deriving DecidableEq, Repr, Inhabited

/-- A byte in two hexadecimal digits, with capital letters. -/
def hexByte (b : UInt8) : String :=
  String.ofList ([b.toNat / 16, b.toNat % 16].map fun d => (Nat.digitChar d).toUpper)

/-- The wording of a decoding trouble. -/
def DecodeTrouble.message : DecodeTrouble → String
  | noHeader => "missing NCS V1.0B header"
  | wrongSize said has =>
    "size field says " ++ said.repr ++ " bytes, file has " ++ has.repr
  | endOfFile => "unexpected end of file"
  | unknownOpcode opcode type => "unknown opcode " ++ hexByte opcode ++ "/" ++ hexByte type

/-- Why an operation could not be done. -/
inductive Error where
  | sourceIo (cause : FileTrouble)
  | sourceNotFound (path : String)
  | outOfMemory (what : String) (bytes : Nat)
  | noEntryPoint
  | wrongReturnType (function : String) (wanted found : ValueType)
  | unresolvedJump (function : String) (label : Nat)
  | unresolvedCall (function : String)
  | outputIo (path : String) (cause : FileTrouble)
  | noOutputName
  | notFinalized
  | alreadyFinalized
  | bufferSealed
  | instanceDestroyed
  | malformed (offset : Nat) (cause : DecodeTrouble)
deriving DecidableEq, Repr, Inhabited

/-- The wording of an error. -/
def Error.message : Error → String
  | sourceIo cause => "failed to read source: " ++ cause.message
  | sourceNotFound path => "unable to open file " ++ path
  | outOfMemory what bytes =>
    "out of memory while allocating " ++ what ++ " (" ++ bytes.repr ++ " bytes)"
  | noEntryPoint => Problem.noEntryPoint.message
  | wrongReturnType function wanted _ =>
    "The " ++ inQuotes function ++ " function must return " ++ wanted.withArticle
  | unresolvedJump function label =>
    "unresolved jump to label " ++ label.repr ++ " in function " ++ function
  | unresolvedCall function => "call to function " ++ function ++ " which has no body"
  | outputIo path cause => "failed to write output file " ++ path ++ ": " ++ cause.message
  | noOutputName => "no output file name was given"
  | notFinalized => "compiler instance was not finalized before serialization"
  | alreadyFinalized => "main script was already finalized"
  | bufferSealed => "instruction buffer is sealed; no further instructions can be appended"
  | instanceDestroyed => "compiler instance was already destroyed"
  | malformed offset cause => "malformed NCS at byte " ++ offset.repr ++ ": " ++ cause.message

/-- The error that made an error, if it is of a kind that has one. -/
def Error.cause? : Error → Option String
  | sourceIo cause | outputIo _ cause => some cause.message
  | _ => none

end Nss
