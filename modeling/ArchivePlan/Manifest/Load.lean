import ArchivePlan.Manifest.Decode
import ArchivePlan.Toml.Document

/-! # Manifest texts and files -/

namespace ArchivePlan

/-- Why a text cannot be read as configured data. -/
inductive ReadError where
  /-- The text is no TOML document; where and why it is none is left out. -/
  | syntactic
  | data (fault : DataFault)
  deriving DecidableEq, Repr

def ReadError.message : ReadError → String
  | .syntactic => "invalid TOML document"
  | .data fault => fault.message

/-- What a TOML document stands for when its table is read in the given way. -/
def readDocument {α : Type} (decode : Toml.Value → Except DataFault α) (text : String) :
    Except ReadError α :=
  match Toml.parse text with
  | none => .error .syntactic
  | some fields => (decode (.table fields)).mapError .data

/-- Why there is no manifest in a text or a file. -/
inductive ManifestError where
  | io (e : IoError)
  | read (e : ReadError)
  | fault (fault : ManifestFault)
  deriving DecidableEq, Repr

def ManifestError.message : ManifestError → String
  | .io e => "failed to read manifest file: " ++ e.message
  | .read e => "failed to parse manifest: " ++ e.message
  | .fault reason => reason.message

namespace Manifest

/-- The manifest that a text writes, if it is consistent. -/
def parse (text : String) : Except ManifestError Manifest := do
  let manifest ← (readDocument Manifest.decode text).mapError .read
  manifest.check.mapError .fault
  return manifest

/-- The manifest in a file.  Its sources are found from the directory that contains the file. -/
def load (fs : FileSystem) (location : Location) : Except ManifestError Manifest := do
  let text ← (fs.readText location).mapError .io
  let manifest ← parse text
  return { manifest with baseDir := location.parent? }

end Manifest

end ArchivePlan
