import FleetOps.Sql

/-!
# Captured evidence

An attachment is captured content with its provenance; a link attaches it, for
a stated purpose, to a record.  Rows of both tables are never changed.
`validAssetEvidence` is the database's own judgement of evidence for an Asset.
-/

namespace FleetOps

/-- What was captured. -/
inductive EvidenceSource
  | photo | document | scan | report | certificate | other
  deriving DecidableEq, Repr

/-- The purpose of a link. -/
inductive EvidenceRole
  | receivingEvidence | disposalEvidence | configEvidence | exceptionEvidence | other
  deriving DecidableEq, Repr

/-- The kind of record that a link is to. -/
inductive EvidenceEntity
  | asset | receipt | receiptLine | assetConfiguration | receivingException
  deriving DecidableEq, Repr

/-- A row of `attachments`. -/
structure Attachment where
  id : Uuid
  sha256 : String
  byteSize : ℤ
  mediaType : String
  storageKey : String
  sourceType : EvidenceSource
  capturedBy : Uuid
  capturedAt : Timestamp
  recordedAt : Timestamp
  supersedesAttachmentId : Option Uuid
  originalFilename : String
  deriving DecidableEq, Repr

/-- A row of `attachment_links`. -/
structure AttachmentLink where
  id : Uuid
  attachmentId : Uuid
  entityType : EvidenceEntity
  entityId : Uuid
  linkRole : EvidenceRole
  actorId : Uuid
  recordedAt : Timestamp
  deriving DecidableEq, Repr

/-- `sha256 ~ '^[0-9a-f]{64}$'`. -/
def isSha256 (text : String) : Bool :=
  text.length = 64 && text.toList.all fun c => "0123456789abcdef".toList.contains c

/-- A character of a media type's two parts. -/
def isMediaChar (c : Char) : Bool :=
  c.isAlphanum || "!#$&^_.+-".toList.contains c

/-- `media_type ~ '^[a-zA-Z0-9!#$&^_.+-]+/[a-zA-Z0-9!#$&^_.+-]+$' AND length(media_type) <= 127`. -/
def isMediaType (text : String) : Bool :=
  let kind := text.toList.takeWhile isMediaChar
  let rest := text.toList.dropWhile isMediaChar
  text.length ≤ 127 && !kind.isEmpty &&
    match rest with
    | '/' :: subtype => !subtype.isEmpty && subtype.all isMediaChar
    | _ => false

/-- The content of one tenant's object lives under the tenant's own prefix. -/
def evidenceKey (org : Uuid) (sha256 : String) : String := uuidText org ++ "/" ++ sha256

/-- The attachment's metadata as `valid_asset_evidence` checks it. -/
def Attachment.WellFormed (org : Uuid) (a : Attachment) : Bool :=
  a.capturedAt.isFinite && a.recordedAt.isFinite && isSha256 a.sha256 && decide (0 ≤ a.byteSize) &&
    a.storageKey == evidenceKey org a.sha256 &&
    decide (1 ≤ (btrim a.originalFilename).length ∧ (btrim a.originalFilename).length ≤ 255) &&
    isMediaType a.mediaType

/-- The rows that other records of one tenant refer to. -/
structure References where
  actors : List Uuid
  parties : List Uuid
  locations : List Uuid
  attachments : List Attachment
  attachmentLinks : List AttachmentLink

/-- `valid_asset_evidence`: some well formed attachment with this id has a link to the Asset, for
the purpose asked for if one is. -/
def validAssetEvidence (refs : References) (org : Uuid) (ref : Option Uuid) (asset : Uuid)
    (role : Option EvidenceRole) : Bool :=
  refs.attachments.any fun a => some a.id == ref && refs.actors.contains a.capturedBy &&
    a.WellFormed org &&
    refs.attachmentLinks.any fun l => l.attachmentId == a.id && refs.actors.contains l.actorId &&
      l.entityType == .asset && l.entityId == asset &&
      (role.isNone || role == some l.linkRole) && l.recordedAt.isFinite

/-- One tenant's reference rows only grow. -/
structure References.Grows (before after : References) : Prop where
  actors : before.actors ⊆ after.actors
  attachments : before.attachments ⊆ after.attachments
  attachmentLinks : before.attachmentLinks ⊆ after.attachmentLinks

/-- Evidence that was valid stays valid when rows are added. -/
theorem validAssetEvidence_of_grows {before after : References} (h : before.Grows after)
    {org asset : Uuid} {ref : Option Uuid} {role : Option EvidenceRole}
    (hvalid : validAssetEvidence before org ref asset role = true) :
    validAssetEvidence after org ref asset role = true := by
  simp only [validAssetEvidence, List.any_eq_true, Bool.and_eq_true, List.contains_iff_mem]
    at hvalid ⊢
  obtain ⟨a, ha, ⟨⟨href, hcapturer⟩, hform⟩, l, hl, ⟨⟨⟨⟨hid, hlinker⟩, htype⟩, hentity⟩, hrole⟩,
    hfinite⟩ := hvalid
  exact ⟨a, h.attachments ha, ⟨⟨href, h.actors hcapturer⟩, hform⟩, l, h.attachmentLinks hl,
    ⟨⟨⟨⟨hid, h.actors hlinker⟩, htype⟩, hentity⟩, hrole⟩, hfinite⟩

end FleetOps
