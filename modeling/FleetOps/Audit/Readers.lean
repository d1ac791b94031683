import FleetOps.Assets.Intervals
import FleetOps.Foundations.Cancellation
import FleetOps.Receiving.CorrectionService
import Mathlib.Data.List.Sort

/-!
# The audit readers

A `REVERSAL` does not store which row it cancels.  Two readers derive it from the
generations: `audit_rows`, behind the listings of one history, and
`asset_history`, which reads everything about an Asset in one statement.

An id is the same in both, a UUID or its text.
-/

namespace FleetOps

/-! ## `audit_rows` -/

def RecordCorrection.audit {φ : Type} (row : RecordCorrection φ) : AuditColumns :=
  ⟨row.id, some row.rootId, row.role, row.generation⟩

/-- `list_transitions` and `_list_history`, in the order of `result_version`. -/
def listHistory (tables : AssetTables) (k : HistoryClass) (asset : Uuid) :
    Service (List (AuditColumns × Option Uuid)) := do
  let _ ← Service.fetch (tables.assets.find? (·.id = asset)) .assetNotFound "Asset not found"
  pure (auditRows id (((tables.rowsFor k asset).insertionSort fun a b =>
    a.resultVersion ≤ b.resultVersion).map HistoryRow.audit))

/-- `ORDER BY correction_generation, correction_role DESC` -/
def RecordCorrection.follows {φ : Type} (a b : RecordCorrection φ) : Prop :=
  a.generation < b.generation ∨
    a.generation = b.generation ∧ (a.role = .reversal ∨ b.role ≠ .reversal)

instance {φ : Type} (a b : RecordCorrection φ) : Decidable (a.follows b) :=
  inferInstanceAs (Decidable (_ ∨ _))

/-- `record_history`, of a receipt line or a purchase order line. -/
def recordHistory {φ : Type} (corrections : List (RecordCorrection φ)) (root : Uuid) :
    List (AuditColumns × Option Uuid) :=
  auditRows id (((corrections.filter (·.rootId = root)).insertionSort RecordCorrection.follows).map
    RecordCorrection.audit)

/-! ## `asset_history` -/

/-- The branches of `HISTORY_SQL` whose tables have no correction columns. -/
inductive OtherBranch
  | initialFacts | initialAssignment | identifier | configuration | receiptLine | receipt
  | receiptComparator | procurementLine | exception | exceptionEvent | syncConflict
  | syncConflictEvent | attachment | attachmentLink
  deriving DecidableEq, Repr

/-- The kinds of entry, one for each branch. -/
inductive HistoryKind
  | ofClass (k : HistoryClass)
  | receiptCorrection
  | procurementCorrection
  | other (branch : OtherBranch)
  deriving DecidableEq, Repr

def HistoryKind.text : HistoryKind → String
  | .ofClass .transition => "TRANSITION"
  | .ofClass .movement => "MOVEMENT"
  | .ofClass .custody => "CUSTODY"
  | .ofClass .ownership => "OWNERSHIP"
  | .ofClass .assignment => "ASSIGNMENT"
  | .receiptCorrection => "RECEIPT_CORRECTION"
  | .procurementCorrection => "PROCUREMENT_CORRECTION"
  | .other .initialFacts => "INITIAL_FACTS"
  | .other .initialAssignment => "INITIAL_ASSIGNMENT"
  | .other .identifier => "IDENTIFIER"
  | .other .configuration => "CONFIGURATION"
  | .other .receiptLine => "RECEIPT_LINE"
  | .other .receipt => "RECEIPT"
  | .other .receiptComparator => "RECEIPT_COMPARATOR"
  | .other .procurementLine => "PROCUREMENT_LINE"
  | .other .exception => "EXCEPTION"
  | .other .exceptionEvent => "EXCEPTION_EVENT"
  | .other .syncConflict => "SYNC_CONFLICT"
  | .other .syncConflictEvent => "SYNC_CONFLICT_EVENT"
  | .other .attachment => "ATTACHMENT"
  | .other .attachmentLink => "ATTACHMENT_LINK"

/-- What the reader looks up in `facts`; `corrects` is the value of the `corrects_…` key. -/
structure HistoryFacts where
  correctionRole : Option CorrectionRole := none
  correctionGeneration : ℕ := 0
  corrects : Option Uuid := none
  receiptLineId : Option Uuid := none
  poLineId : Option Uuid := none
  deriving DecidableEq, Repr

/-- `_root` -/
def HistoryFacts.root (facts : HistoryFacts) : Option Uuid :=
  facts.corrects <|> facts.receiptLineId <|> facts.poLineId

/-- A row of `events`. -/
structure HistoryEntry where
  kind : HistoryKind
  id : Uuid
  occurredAt : Timestamp
  recordedAt : Timestamp
  facts : HistoryFacts
  deriving DecidableEq, Repr

/-- A row of a branch without correction columns. -/
structure OtherEvent where
  branch : OtherBranch
  id : Uuid
  occurredAt : Timestamp
  recordedAt : Timestamp
  deriving DecidableEq, Repr

namespace HistoryEntry

def ofHistory (k : HistoryClass) (row : HistoryRow (Fact k)) : HistoryEntry where
  kind := .ofClass k
  id := row.id
  occurredAt := row.occurredAt
  recordedAt := row.recordedAt
  facts :=
    { correctionRole := some row.role, correctionGeneration := row.generation
      corrects := row.root }

def ofReceiptCorrection (row : RecordCorrection LineFields) : HistoryEntry where
  kind := .receiptCorrection
  id := row.id
  occurredAt := row.occurredAt
  recordedAt := row.recordedAt
  facts :=
    { correctionRole := some row.role, correctionGeneration := row.generation
      receiptLineId := some row.rootId, poLineId := row.fields.poLineId }

def ofProcurementCorrection (row : RecordCorrection PurchaseOrderFields) : HistoryEntry where
  kind := .procurementCorrection
  id := row.id
  occurredAt := row.occurredAt
  recordedAt := row.recordedAt
  facts :=
    { correctionRole := some row.role, correctionGeneration := row.generation
      poLineId := some row.rootId }

def ofOther (event : OtherEvent) : HistoryEntry where
  kind := .other event.branch
  id := event.id
  occurredAt := event.occurredAt
  recordedAt := event.recordedAt
  facts := {}

/-- The order of `timestamptz`. -/
def timeLe : Timestamp → Timestamp → Bool
  | .negInfinity, _ => true
  | _, .infinity => true
  | .at a, .at b => decide (a ≤ b)
  | _, _ => false

/-- `ORDER BY occurred_at,recorded_at,kind,id` -/
def le (r s : HistoryEntry) : Bool :=
  if r.occurredAt ≠ s.occurredAt then timeLe r.occurredAt s.occurredAt
  else if r.recordedAt ≠ s.recordedAt then timeLe r.recordedAt s.recordedAt
  else if r.kind ≠ s.kind then decide (r.kind.text < s.kind.text)
  else decide (r.id ≤ s.id)

end HistoryEntry

namespace Tenant

variable (tenant : Tenant)

/-- `unit_lines`: the lines that name the Asset, as recorded, corrected or excepted. -/
def unitLines (asset : Uuid) : List ReceiptLine :=
  tenant.lines.filter fun l => l.fields.assetId = some asset ∨
    (tenant.lineCorrections.any fun c => c.rootId = l.id ∧ c.role = .corrected ∧
      (c.fields.assetId = some asset ∨ c.conflictingAssetId = some asset)) ∨
    tenant.exceptions.any fun e => e.key.receiptLineId = some l.id ∧
      e.key.conflictingAssetId = some asset

/-- `unit_corrections` -/
def unitCorrections (asset : Uuid) : List (RecordCorrection LineFields) :=
  tenant.lineCorrections.filter fun c => c.rootId ∈ (tenant.unitLines asset).map ReceiptLine.id

/-- `unit_comparators` -/
def unitComparators (asset : Uuid) : List Comparator :=
  tenant.comparators.filter fun c =>
    ((tenant.unitLines asset).any fun l => l.receiptId = c.receiptId ∧
      l.fields.poLineId = some c.poLineId) ∨
    (tenant.unitCorrections asset).any fun l => l.entityId = c.receiptId ∧
      l.fields.poLineId = some c.poLineId

/-- The corrections of the comparators' lines. -/
def unitProcurementCorrections (asset : Uuid) : List (RecordCorrection PurchaseOrderFields) :=
  tenant.purchaseOrderLineCorrections.filter fun c =>
    c.rootId ∈ (tenant.unitComparators asset).map Comparator.poLineId

/-- `events`, with the rows of the branches without correction columns. -/
def assetEvents (others : List OtherEvent) (asset : Uuid) : List HistoryEntry :=
  (HistoryClass.all.flatMap fun k =>
    (tenant.tables.rowsFor k asset).map (HistoryEntry.ofHistory k)) ++
  (tenant.unitCorrections asset).map HistoryEntry.ofReceiptCorrection ++
  (tenant.unitProcurementCorrections asset).map HistoryEntry.ofProcurementCorrection ++
  others.map HistoryEntry.ofOther

end Tenant

/-- `corrections` of `asset_history`. -/
def historyCorrections (entries : List HistoryEntry) :
    List ((HistoryKind × Option Uuid × ℕ) × Uuid) :=
  Dictionary.ofRows Prod.fst <|
    (entries.filter (·.facts.correctionRole = some .corrected)).map fun entry =>
      ((entry.kind, entry.facts.root, entry.facts.correctionGeneration), entry.id)

/-- `cancels_history_id` of an entry. -/
def cancelsEntryId (corrections : List ((HistoryKind × Option Uuid × ℕ) × Uuid))
    (entry : HistoryEntry) : Option Uuid :=
  match entry.facts.correctionRole, entry.facts.correctionGeneration with
  | some .reversal, 1 => entry.facts.root
  | some .reversal, g + 2 => corrections.lookup (entry.kind, entry.facts.root, g + 1)
  | _, _ => none

/-- `asset_history`, its entries. -/
def assetHistory (others : List OtherEvent) (asset : Uuid) (tenant : Tenant) :
    Service (List (HistoryEntry × Option Uuid)) := do
  let _ ← Service.fetch (tenant.tables.assets.find? (·.id = asset)) .assetNotFound "Asset not found"
  let entries := (tenant.assetEvents others asset).mergeSort HistoryEntry.le
  pure (entries.map fun entry => (entry, cancelsEntryId (historyCorrections entries) entry))

end FleetOps
