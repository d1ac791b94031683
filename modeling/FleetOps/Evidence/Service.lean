import FleetOps.Evidence.Tables
import FleetOps.Service

/-!
# The evidence service

Metadata is in the database, bytes are in a store outside it.  Whoever relies on
evidence reads the bytes again and compares them with the recorded size and
hash, so lost or altered content is an error and not an answer.
-/

namespace FleetOps

/-- A reference to stored content. -/
structure StoredEvidence where
  key : String
  sha256 : String
  byteSize : ℤ
  deriving DecidableEq, Repr

/-- A content store: the files that can be read now, by key, and the digest that addresses
them. -/
structure EvidenceStorage where
  files : String → Option (List UInt8)
  /-- `hashlib.sha256(content).hexdigest()` -/
  sha256 : List UInt8 → String

namespace EvidenceStorage

/-- `read`, which verifies size and hash on every access. -/
def read (storage : EvidenceStorage) (org : Uuid) (reference : StoredEvidence) :
    Service (List UInt8) := do
  Service.ensure (isSha256 reference.sha256 ∧ 0 ≤ reference.byteSize ∧
      reference.key = evidenceKey org reference.sha256)
    .evidenceStorageError "Invalid evidence storage reference"
  let content ← Service.fetch (storage.files reference.key) .evidenceStorageError
    "Evidence bytes are unavailable"
  Service.ensure ((content.length : ℤ) = reference.byteSize ∧
      storage.sha256 content = reference.sha256)
    .evidenceStorageError "Evidence integrity check failed"
  pure content

end EvidenceStorage

namespace EvidenceService

/-- `get_attachment`. -/
def getAttachment (refs : References) (id : Uuid) : Service Attachment :=
  Service.fetch (refs.attachments.find? (·.id = id)) .evidenceNotFound "Attachment not found"

/-- `read_content`. -/
def readContent (storage : Option EvidenceStorage) (org : Uuid) (row : Attachment) :
    Service (List UInt8) := do
  let storage ← Service.fetch storage .evidenceStorageError "Evidence storage is not configured"
  storage.read org ⟨row.storageKey, row.sha256, row.byteSize⟩

/-- `verify_asset_evidence`. -/
def verifyAssetEvidence (refs : References) (org : Uuid) (storage : Option EvidenceStorage)
    (asset : Uuid) (attachment : Option Uuid) (role : Option EvidenceRole) (required : Bool) :
    Service Unit :=
  match attachment with
  | none => Service.ensure (!required) .evidenceInvalid "Verifiable disposal evidence is required"
  | some id => do
      let row ← getAttachment refs id
      Service.ensure (validAssetEvidence refs org (some id) asset role) .evidenceInvalid
        "Evidence provenance or Asset link is invalid"
      let _ ← readContent storage org row
      pure ()

end EvidenceService

end FleetOps
