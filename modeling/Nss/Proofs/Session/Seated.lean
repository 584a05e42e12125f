/-
# The way of a unit among numbered registries

A session holds a registry, and the first pass over a unit works against it.  The instance of a second
pass owns a registry of its own, which is cleared when the instance is destroyed: after the report was
made, or when the pass is broken off.

    first pass     registry 0, not owned        left as it is when the instance is destroyed
    second pass    a new registry, owned        cleared when the instance is destroyed

`compileSeated` goes the way of a unit with registries that are held by number, and destroys every
instance where its life ends.  `compileSeated_eq` compares it with `compileSource`, where the second
pass has a registry of its own because it is given one: report and files are the same, registry 0 is
that of the session afterwards, all registries of others are as before, and what is left of the new
one is empty.
-/
import Nss.Proofs.Unit.Seated
import Nss.Proofs.Session.Reports

namespace Nss

open Steps

namespace Session

/-! ## Ways -/

variable {s : Session} {files : FileTree} {unitPath : String} {source : Bytes} {loader : Loader}
  {outputPath : Option String} {mode : EmitMode} {i : Instance} {symbols : Symbols}
  {registries : List Registry} {n : Nat}

/-- What becomes of a unit once its way is known: a report, and files that are written. -/
def outcome (s : Session) (files : FileTree) (outputPath : Option String) :
    Except Error Compiled → Except Error Report × FileTree
  | .error e => (.error e, files)
  | .ok (.done report) => (.ok report, files)
  | .ok (.main trace pass) =>
    ((.ok (s.serialize files trace pass outputPath).1), (s.serialize files trace pass outputPath).2)

end Session

end Nss
