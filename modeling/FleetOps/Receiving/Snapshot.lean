import FleetOps.Receiving.Tables
import Mathlib.Data.List.Perm.Lattice

/-!
# Disagreements of a snapshot

What receiving compares is a snapshot: the lines of one receipt, each at some
generation, and the receipt's expectations.  `Snapshot.Disagrees` says when such
a snapshot disagrees with itself, and with which typed relationships.  It is a
specification; the program computes it three times, and each classifier is
compared with it through `Snapshot.represents_of_kinds`.
-/

namespace FleetOps

/-- A row of the view `evaluated_receipt_lines`. -/
structure EvaluatedLine where
  receiptLineId : Uuid
  receiptId : Uuid
  poLineId : Option Uuid
  itemId : Uuid
  quantity : ℚ
  uom : UnitOfMeasure
  condition : ReceiptCondition
  packingQuantity : Option ℚ
  assetId : Option Uuid
  serialized : Bool
  conflictingAssetId : Option Uuid
  unreadable : Bool
  deriving DecidableEq

/-- A row of the view `evaluated_receipt_expectations`. -/
structure EvaluatedExpectation where
  poLineId : Uuid
  itemId : Uuid
  quantity : ℚ
  uom : UnitOfMeasure
  deriving DecidableEq

/-- The key of a line's disagreement; quantities and serials are not about an Asset of ours. -/
def lineKey (line : EvaluatedLine) (kind : ExceptionType) : ExceptionKey where
  exceptionType := kind
  receiptLineId := some line.receiptLineId
  poLineId := line.poLineId
  assetId := if kind = .quantityVariance ∨ kind = .serialMismatch then none else line.assetId
  conflictingAssetId := if kind = .serialMismatch then line.conflictingAssetId else none

/-- The key of a receipt's quantity conclusion on an expectation. -/
def quantityKey (poLine : Uuid) (kind : ExceptionType) : ExceptionKey where
  exceptionType := kind
  receiptLineId := none
  poLineId := some poLine
  assetId := none
  conflictingAssetId := none

/-- The lines of a receipt and what they are compared with. -/
structure Snapshot where
  lines : List EvaluatedLine
  expectations : List EvaluatedExpectation

namespace Snapshot

/-- The lines that arrived for an expectation. -/
def arrivals (snapshot : Snapshot) (poLine : Uuid) : List EvaluatedLine :=
  snapshot.lines.filter (·.poLineId = some poLine)

/-- When a line disagrees with what was selected for it, or shows a fact of its own. -/
def LineDisagrees (snapshot : Snapshot) (line : EvaluatedLine) : ExceptionType → Prop
  | .unexpectedItem => line.poLineId = none
  | .substitution => ∃ p ∈ snapshot.expectations,
      line.poLineId = some p.poLineId ∧ line.itemId ≠ p.itemId
  | .uomMismatch => ∃ p ∈ snapshot.expectations,
      line.poLineId = some p.poLineId ∧ line.uom ≠ p.uom
  | .damaged => line.condition = .damaged
  | .opened => line.condition = .opened
  | .quantityVariance => ∃ counted, line.packingQuantity = some counted ∧ line.quantity ≠ counted
  | .serialUnreadable => line.unreadable = true
  | .serialMismatch => line.conflictingAssetId ≠ none
  | .short | .over => False

/-- When the quantities that arrived are comparable with an expectation and differ from it. -/
def QuantityDisagrees (snapshot : Snapshot) (expected : EvaluatedExpectation) :
    ExceptionType → Prop
  | .short => (∀ line ∈ snapshot.arrivals expected.poLineId, line.uom = expected.uom) ∧
      ((snapshot.arrivals expected.poLineId).map EvaluatedLine.quantity).sum < expected.quantity
  | .over => (∀ line ∈ snapshot.arrivals expected.poLineId, line.uom = expected.uom) ∧
      expected.quantity < ((snapshot.arrivals expected.poLineId).map EvaluatedLine.quantity).sum
  | _ => False

/-- A disagreement of some line. -/
def LineKeyed (snapshot : Snapshot) (key : ExceptionKey) : Prop :=
  ∃ line ∈ snapshot.lines, ∃ kind, snapshot.LineDisagrees line kind ∧ key = lineKey line kind

/-- A quantity conclusion on some expectation. -/
def QuantityKeyed (snapshot : Snapshot) (key : ExceptionKey) : Prop :=
  ∃ expected ∈ snapshot.expectations, ∃ kind,
    snapshot.QuantityDisagrees expected kind ∧ key = quantityKey expected.poLineId kind

/-- The disagreements of a snapshot. -/
def Disagrees (snapshot : Snapshot) (key : ExceptionKey) : Prop :=
  snapshot.LineKeyed key ∨ snapshot.QuantityKeyed key

/-- Lines and expectations are identified by their roots, and what a line selects is expected. -/
structure WellFormed (snapshot : Snapshot) : Prop where
  lines : (snapshot.lines.map EvaluatedLine.receiptLineId).Nodup
  expectations : (snapshot.expectations.map EvaluatedExpectation.poLineId).Nodup
  selected : ∀ line ∈ snapshot.lines, ∀ poLine ∈ line.poLineId,
    ∃ expected ∈ snapshot.expectations, expected.poLineId = poLine

/-- A list of keys is exactly the disagreements in question, each once. -/
def Represents (keys : List ExceptionKey) (holds : ExceptionKey → Prop) : Prop :=
  keys.Nodup ∧ ∀ key, key ∈ keys ↔ holds key

theorem Represents.perm {first second : List ExceptionKey} {holds : ExceptionKey → Prop}
    (hfirst : Represents first holds) (hsecond : Represents second holds) : first.Perm second :=
  (List.perm_ext_iff_of_nodup hfirst.1 hsecond.1).mpr fun key =>
    (hfirst.2 key).trans (hsecond.2 key).symm

theorem Represents.of_perm {first second : List ExceptionKey} {holds : ExceptionKey → Prop}
    (h : Represents first holds) (hperm : first.Perm second) : Represents second holds :=
  ⟨hperm.nodup_iff.mp h.1, fun key => hperm.mem_iff.symm.trans (h.2 key)⟩

theorem Represents.congr {keys : List ExceptionKey} {holds other : ExceptionKey → Prop}
    (h : Represents keys holds) (hiff : ∀ key, holds key ↔ other key) : Represents keys other :=
  ⟨h.1, fun key => (h.2 key).trans (hiff key)⟩

/-- A classifier of lines that finds the right kinds, each once, represents the lines' keys. -/
theorem represents_lines {snapshot : Snapshot} (hwell : snapshot.WellFormed)
    {kinds : EvaluatedLine → List ExceptionType}
    (hnodup : ∀ line ∈ snapshot.lines, (kinds line).Nodup)
    (hkinds : ∀ line ∈ snapshot.lines, ∀ kind, kind ∈ kinds line ↔ snapshot.LineDisagrees line kind) :
    Represents (snapshot.lines.flatMap fun line => (kinds line).map (lineKey line))
      snapshot.LineKeyed := by
  refine ⟨?_, fun key => ?_⟩
  · refine List.nodup_flatMap.mpr ⟨fun line hline => ?_, ?_⟩
    · exact (hnodup line hline).map fun _ _ heq => congrArg ExceptionKey.exceptionType heq
    · refine (List.pairwise_map.mp hwell.lines).imp fun {first second} hne key hfirst hsecond => ?_
      obtain ⟨_, -, rfl⟩ := List.mem_map.mp hfirst
      obtain ⟨_, -, heq⟩ := List.mem_map.mp hsecond
      exact hne (Option.some.inj (congrArg ExceptionKey.receiptLineId heq)).symm
  · constructor
    · intro hmem
      obtain ⟨line, hline, hkey⟩ := List.mem_flatMap.mp hmem
      obtain ⟨kind, hkind, rfl⟩ := List.mem_map.mp hkey
      exact ⟨line, hline, kind, (hkinds line hline kind).mp hkind, rfl⟩
    · rintro ⟨line, hline, kind, hdisagrees, rfl⟩
      exact List.mem_flatMap.mpr
        ⟨line, hline, List.mem_map_of_mem ((hkinds line hline kind).mpr hdisagrees)⟩

/-- The same for the quantity conclusions on the expectations. -/
theorem represents_quantities {snapshot : Snapshot} (hwell : snapshot.WellFormed)
    {conclusion : EvaluatedExpectation → Option ExceptionType}
    (hconclusion : ∀ expected ∈ snapshot.expectations, ∀ kind,
      conclusion expected = some kind ↔ snapshot.QuantityDisagrees expected kind) :
    Represents (snapshot.expectations.flatMap fun expected =>
      (conclusion expected).toList.map (quantityKey expected.poLineId)) snapshot.QuantityKeyed := by
  refine ⟨?_, fun key => ?_⟩
  · refine List.nodup_flatMap.mpr ⟨fun expected _ => ?_, ?_⟩
    · cases conclusion expected <;> simp
    · refine (List.pairwise_map.mp hwell.expectations).imp
        fun {first second} hne key hfirst hsecond => ?_
      obtain ⟨_, -, rfl⟩ := List.mem_map.mp hfirst
      obtain ⟨_, -, heq⟩ := List.mem_map.mp hsecond
      exact hne (Option.some.inj (congrArg ExceptionKey.poLineId heq)).symm
  · constructor
    · intro hmem
      obtain ⟨expected, hexpected, hkey⟩ := List.mem_flatMap.mp hmem
      obtain ⟨kind, hkind, rfl⟩ := List.mem_map.mp hkey
      exact ⟨expected, hexpected, kind,
        (hconclusion expected hexpected kind).mp (Option.mem_toList.mp hkind), rfl⟩
    · rintro ⟨expected, hexpected, kind, hdisagrees, rfl⟩
      refine List.mem_flatMap.mpr ⟨expected, hexpected, List.mem_map_of_mem ?_⟩
      exact Option.mem_toList.mpr ((hconclusion expected hexpected kind).mpr hdisagrees)

/-- Line keys name a line and quantity keys do not, so the two never meet. -/
theorem Represents.append {snapshot : Snapshot} {lines quantities : List ExceptionKey}
    (hlines : Represents lines snapshot.LineKeyed)
    (hquantities : Represents quantities snapshot.QuantityKeyed) :
    Represents (lines ++ quantities) snapshot.Disagrees := by
  refine ⟨List.nodup_append.mpr ⟨hlines.1, hquantities.1, ?_⟩, fun key => ?_⟩
  · rintro key hline other hquantity rfl
    obtain ⟨_, -, _, -, rfl⟩ := (hlines.2 key).mp hline
    obtain ⟨_, -, _, -, heq⟩ := (hquantities.2 _).mp hquantity
    exact nomatch congrArg ExceptionKey.receiptLineId heq
  · rw [List.mem_append, hlines.2, hquantities.2]
    rfl

/-- A classifier that finds the right kinds of every line and the right conclusion on every
expectation computes the disagreements. -/
theorem represents_of_kinds {snapshot : Snapshot} (hwell : snapshot.WellFormed)
    {kinds : EvaluatedLine → List ExceptionType}
    {conclusion : EvaluatedExpectation → Option ExceptionType}
    (hnodup : ∀ line ∈ snapshot.lines, (kinds line).Nodup)
    (hkinds : ∀ line ∈ snapshot.lines, ∀ kind, kind ∈ kinds line ↔ snapshot.LineDisagrees line kind)
    (hconclusion : ∀ expected ∈ snapshot.expectations, ∀ kind,
      conclusion expected = some kind ↔ snapshot.QuantityDisagrees expected kind) :
    Represents ((snapshot.lines.flatMap fun line => (kinds line).map (lineKey line)) ++
      snapshot.expectations.flatMap fun expected =>
        (conclusion expected).toList.map (quantityKey expected.poLineId)) snapshot.Disagrees :=
  (represents_lines hwell hnodup hkinds).append (represents_quantities hwell hconclusion)

end Snapshot

end FleetOps
