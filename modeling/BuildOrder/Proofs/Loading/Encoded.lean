/-
Files that texts were written to. How a text was written does not reach the result of loading its
file: a mark in front and the ways to end a line are gone before the text is read, and places count in
the text. So the file gives the module of the text, or the one error of the text at the same place,
and it is never a file that cannot be read.
-/
import BuildOrder.Proofs.Discovery.Opening
import BuildOrder.Proofs.Loading.Pool
import BuildOrder.Proofs.Text.Encoded

namespace BuildOrder.FileTree

variable {t : FileTree} {path text : String} {bytes : List UInt8}

theorem loadModule_of_decodeFile (hread : t.read (.ofString path) = .ok (.ok bytes))
    (hdecode : Text.decodeFile bytes = .ok text) :
    t.loadModule path =
      .ok ((Module.ofSource (BuildFile.moduleName path) (BuildFile.moduleDirectory path)
        text).mapError fun f => .ofFault (f.withPath path)) := by
  unfold loadModule
  simp only [hread, hdecode, bind, Except.bind, pure, Except.pure]
  split <;> simp only [*, Except.mapError]

/-- A file that a text was written to gives the module of the text; or it gives none, and what is said
is the fault of the text, with its message and its position, of the file. -/
theorem encoding_irrelevant (hread : t.read (.ofString path) = .ok (.ok bytes))
    (hbytes : Text.Encodes text bytes) (hreturn : '\r' ∉ text.toList)
    (hmark : text.toList.head? ≠ some '\uFEFF') :
    let parsed := Module.ofSource (BuildFile.moduleName path) (BuildFile.moduleDirectory path) text
    t.resultOf path = .ok parsed.toOption ∧
      t.saidOf path = match parsed with
        | .ok _ => []
        | .error f => [⟨.error, f.message, some path, f.position⟩] := by
  intro parsed
  have hdecode := Text.decodeFile_of_encodes hbytes hreturn hmark
  have hload : t.loadModule path = .ok (parsed.mapError fun f => .ofFault (f.withPath path)) :=
    loadModule_of_decodeFile hread hdecode
  unfold resultOf saidOf
  rw [hload]
  cases parsed with
  | ok m => exact ⟨rfl, rfl⟩
  | error f => exact ⟨rfl, rfl⟩

/-- The bytes of a letter behind two line feeds, written in two ways, and behind a mark. -/
def markedBytes : List UInt8 :=
  Text.byteOrderMark ++ ['\r', '\n', '\r', 'é'].flatMap String.utf8EncodeChar

theorem encodes_markedBytes : Text.Encodes "\n\né" markedBytes :=
  ⟨_, .both (.carriage (.char (by decide) .nil) (by decide)), .inr rfl⟩

theorem encoding_irrelevant_marked :
    Text.Encodes "\n\né" markedBytes ∧
      (single "A.build" markedBytes).resultOf "A.build" = .ok none ∧
      (single "A.build" markedBytes).saidOf "A.build" =
        [⟨.error, "Expected Module, got Identifier", some "A.build", ⟨3, 1⟩⟩] := by
  have hread : (single "A.build" markedBytes).read (.ofString "A.build") = .ok (.ok markedBytes) :=
    read_single (by decide) markedBytes
  have hparsed : Module.ofSource (BuildFile.moduleName "A.build")
      (BuildFile.moduleDirectory "A.build") "\n\né" =
        .error ⟨.grammar, "Expected Module, got Identifier", none, ⟨3, 1⟩⟩ := by decide +kernel
  have h := encoding_irrelevant hread encodes_markedBytes (by decide) (by decide)
  rw [hparsed] at h
  exact ⟨encodes_markedBytes, h⟩

end BuildOrder.FileTree
