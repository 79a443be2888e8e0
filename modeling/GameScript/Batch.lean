import GameScript.Compile
import GameScript.FileTree

/-! Compiling files, one by one and in batches. -/

namespace GameScript

def sourceEnding : String := ".gmlpp"

def outputEnding : String := ".gml"

def outputPath? (path : String) : Option String :=
  let chars := path.toList
  let stem := chars.take (chars.length - sourceEnding.length)
  if chars = stem ++ sourceEnding.toList then some (String.ofList stem ++ outputEnding) else none

inductive FileFailure where
  | notSource (path : String)
  | file (reason : FileError)
  | compile (path : String) (reason : CompileError)
  | cancelled
deriving DecidableEq, Repr

def FileFailure.message? : FileFailure → Option String
  | .notSource path => some ("not a gmlpp source: " ++ path)
  | .file _ => none
  | .compile path reason => some (path ++ ": " ++ reason.message)
  | .cancelled => some "context canceled"

structure Pending where
  path : String
  content : String
deriving DecidableEq, Repr

variable {σ : Type}

def prepareFile (access : FileAccess σ) (style : Style) (files : σ) (path : String) :
    Except FileFailure Pending :=
  match outputPath? path with
  | none => .error (.notSource path)
  | some output =>
      match access.read files path with
      | .error reason => .error (.file reason)
      | .ok content =>
          match compile style content.toList with
          | .error reason => .error (.compile path reason)
          | .ok compiled => .ok ⟨output, compiled⟩

/-- Compiles a source file to the file beside it; gives the path of that file and the files
afterwards. A failure writes nothing. -/
def compileFile (access : FileAccess σ) (style : Style) (files : σ) (path : String) :
    Except FileFailure String × σ :=
  match prepareFile access style files path with
  | .error reason => (.error reason, files)
  | .ok pending =>
      match access.write files pending.path pending.content with
      | .error reason => (.error (.file reason), files)
      | .ok after => (.ok pending.path, after)

inductive WriteFailure where
  | print (reason : CompileError)
  | file (reason : FileError)
deriving DecidableEq, Repr

def writeScript (access : FileAccess σ) (style : Style) (files : σ) (path : String)
    (script : Script) : Except WriteFailure Unit × σ :=
  match script.render style with
  | .error reason => (.error (.print reason), files)
  | .ok text =>
      match access.write files path text with
      | .error reason => (.error (.file reason), files)
      | .ok after => (.ok (), after)

structure BatchResult where
  source : String
  outcome : Except FileFailure String

namespace BatchResult

def failed (result : BatchResult) : Bool :=
  match result.outcome with
  | .error _ => true
  | .ok _ => false

def tried (result : BatchResult) : Bool :=
  match result.outcome with
  | .error .cancelled => false
  | _ => true

end BatchResult

/-- Compiles files in order. With a limit, the files after that many are cancelled. -/
def compileFiles (access : FileAccess σ) (style : Style) (limit : Option Nat) (files : σ) :
    List String → List BatchResult × σ
  | [] => ([], files)
  | path :: rest =>
      if limit = some 0 then
        let (results, last) := compileFiles access style limit files rest
        (⟨path, .error .cancelled⟩ :: results, last)
      else
        let (outcome, after) := compileFile access style files path
        let (results, last) := compileFiles access style (limit.map (· - 1)) after rest
        (⟨path, outcome⟩ :: results, last)

/-- The results that a batch reports on, ordered by source: files finish in no fixed order. -/
def reported (results : List BatchResult) : List BatchResult :=
  (results.filter BatchResult.tried).mergeSort fun first second => first.source ≤ second.source

end GameScript
