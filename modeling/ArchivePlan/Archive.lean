import ArchivePlan.Digest.Cache
import ArchivePlan.Sink.Listing

/-! # Handing a listing over to an archive

The entries of a listing go to an archive in order, files with the digest of their content.  The
hand-over ends at the first entry whose content cannot be digested or that the archive refuses. -/

namespace ArchivePlan

/-- Something that takes archive entries with their digests, with states in `β`. -/
structure Archive (β : Type) where
  take : β → Descriptor → Option String → Reply β

/-- The digest of content; links and directories have none. -/
def Cache.contentDigest (cache : Cache) (fs : FileSystem) (content : Content)
    (algorithm : Algorithm) : Cache × Except IoError (Option String) :=
  match content with
  | .file l =>
    let (cache, digest) := cache.fileDigest fs l algorithm
    (cache, digest.map some)
  | .bytes bytes => (cache, .ok (some (algorithm.hexDigest bytes)))
  | .link _ => (cache, .ok none)
  | .none => (cache, .ok none)

/-- The location that is named when the content of an entry cannot be digested. -/
def Descriptor.contentLocation (d : Descriptor) : Location :=
  match d.content with
  | .file l => l
  | _ => Location.ofString d.path

/-- The digest that an archive entry goes with. -/
def Cache.entryDigest (cache : Cache) (fs : FileSystem) (d : Descriptor) :
    Cache × Except PlanError (Option String) :=
  match d.kind, d.digest with
  | .file, some algorithm =>
    let (cache, digest) := cache.contentDigest fs d.content algorithm
    (cache, digest.mapError (.digest d.contentLocation))
  | _, _ => (cache, .ok none)

/-- A hand-over in progress. -/
structure HandOver (β : Type) where
  archive : β
  cache : Cache

/-- Hands entries over up to the first failure. -/
def Archive.takeAll {β : Type} (archive : Archive β) (fs : FileSystem) (state : HandOver β) :
    List Descriptor → Reply (HandOver β)
  | [] => ⟨state, none⟩
  | d :: rest =>
    match state.cache.entryDigest fs d with
    | (cache, .error e) => ⟨{ state with cache }, some e⟩
    | (cache, .ok digest) =>
      let reply := (archive.take state.archive d digest).map fun next => ⟨next, cache⟩
      reply.andThen fun state => archive.takeAll fs state rest

/-- Hands a listing over; gives the number of entries. -/
def Listing.writeTo {β : Type} (listing : Listing) (archive : Archive β) (fs : FileSystem)
    (state : HandOver β) : HandOver β × Except PlanError Nat :=
  let reply := archive.takeAll fs state listing.entries
  match reply.refusal with
  | some e => (reply.state, .error e)
  | none => (reply.state, .ok listing.entries.length)

/-- An archive that records what it takes and refuses certain paths. -/
structure Record where
  /-- The paths whose entries are refused. -/
  closed : List String := []
  /-- The entries taken, with their digests. -/
  taken : List (Descriptor × Option String) := []
  deriving DecidableEq

def Record.archive : Archive Record where
  take record d digest :=
    if d.path ∈ record.closed then ⟨record, some (.rejected d.path "refused")⟩
    else ⟨{ record with taken := record.taken ++ [(d, digest)] }, none⟩

end ArchivePlan
