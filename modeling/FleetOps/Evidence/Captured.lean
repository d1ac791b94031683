import FleetOps.Evidence.Capturing
import FleetOps.Foundations.Keys
import Mathlib.Logic.Relation

/-!
# Captured evidence is addressed by its content

Whatever the processes do and wherever they stop, a committed row has its content
under its own digest, and a digest has one row.  `EvidenceSystem.Sound` says so of
a state, together with what every process relies on in its phase (`Fits`): from
the insertion on the content is stored, and two insertions that are not decided
differ.
-/

namespace FleetOps

open Keys Relation WriteOnce

/-! ## Rows that supersede others -/

/-- A row supersedes another one. -/
def SupersedesAttachment (rows : List Attachment) (row original : Attachment) : Prop :=
  row ∈ rows ∧ original ∈ rows ∧ row.supersedesAttachmentId = some original.id

/-- Every row supersedes, if anything, a row before it with another digest. -/
inductive Ordered : List Attachment → Prop
  | nil : Ordered []
  | concat {rows : List Attachment} {row : Attachment} (h : Ordered rows)
      (hrow : ∀ parent ∈ row.supersedesAttachmentId, ∃ original ∈ rows,
        original.id = parent ∧ original.sha256 ≠ row.sha256) : Ordered (rows ++ [row])

/-- What a row supersedes stands before it. -/
theorem Ordered.parent {rows : List Attachment} (h : Ordered rows) {row : Attachment}
    (hrow : row ∈ rows) {parent : Uuid} (hparent : row.supersedesAttachmentId = some parent) :
    ∃ original ∈ rows, original.id = parent ∧ rows.idxOf original < rows.idxOf row ∧
      original.sha256 ≠ row.sha256 := by
  induction h with
  | nil => exact absurd hrow List.not_mem_nil
  | @concat rows last h hlast ih =>
      by_cases hold : row ∈ rows
      · obtain ⟨original, horiginal, hid, hbefore, hdiffers⟩ := ih hold
        refine ⟨original, List.mem_append_left _ horiginal, hid, ?_, hdiffers⟩
        rwa [List.idxOf_append_of_mem horiginal, List.idxOf_append_of_mem hold]
      · have hself : row = last :=
          List.mem_singleton.mp ((List.mem_append.mp hrow).resolve_left hold)
        obtain ⟨original, horiginal, hid, hdiffers⟩ := hlast parent (hself ▸ hparent)
        refine ⟨original, List.mem_append_left _ horiginal, hid, ?_, hself ▸ hdiffers⟩
        rw [List.idxOf_append_of_mem horiginal, List.idxOf_append_of_notMem hold]
        have hlt := List.idxOf_lt_length_of_mem horiginal
        omega

theorem Ordered.supersedes {rows : List Attachment} (h : Ordered rows)
    (hids : Distinct Attachment.id rows) {row original : Attachment}
    (hlink : SupersedesAttachment rows row original) :
    rows.idxOf original < rows.idxOf row ∧ original.sha256 ≠ row.sha256 := by
  obtain ⟨hrow, horiginal, hparent⟩ := hlink
  obtain ⟨found, hfound, hid, hbefore, hdiffers⟩ := h.parent hrow hparent
  obtain rfl := hids.eq hfound horiginal hid
  exact ⟨hbefore, hdiffers⟩

/-- No row supersedes itself, over any number of steps. -/
theorem Ordered.acyclic {rows : List Attachment} (h : Ordered rows)
    (hids : Distinct Attachment.id rows) (row : Attachment) :
    ¬TransGen (SupersedesAttachment rows) row row := by
  intro hcycle
  have hdescends : ∀ other, TransGen (SupersedesAttachment rows) row other →
      rows.idxOf other < rows.idxOf row := by
    intro other hpath
    induction hpath with
    | single hlink => exact (h.supersedes hids hlink).1
    | tail _ hlink ih => exact (h.supersedes hids hlink).1.trans ih
  exact Nat.lt_irrefl _ (hdescends row hcycle)

/-! ## Sound states -/

section

variable (sha256 : List UInt8 → String)

/-- The content is stored under its own key. -/
def Stored (files : Store String (List UInt8)) (org : Uuid) (content : List UInt8) : Prop :=
  files (evidenceKey org (sha256 content)) = some content

/-- A row describes content. -/
structure Describes (org : Uuid) (row : Attachment) (content : List UInt8) : Prop where
  sha256 : row.sha256 = sha256 content
  storageKey : row.storageKey = evidenceKey org row.sha256
  byteSize : row.byteSize = content.length
  hash : isSha256 row.sha256 = true

/-- The committed rows of a tenant. -/
structure Ledger (files : Store String (List UInt8)) (org : Uuid) (rows : List Attachment) :
    Prop where
  hashes : Distinct Attachment.sha256 rows
  ids : Distinct Attachment.id rows
  described : ∀ row ∈ rows, ∃ content, Stored sha256 files org content ∧
    Describes sha256 org row content
  ordered : Ordered rows

namespace EvidenceSystem

/-- What a task is to supersede is committed, with other content. -/
def Superseding (system : EvidenceSystem) (task : EvidenceTask) : Prop :=
  ∀ parent ∈ task.parent, ∃ original ∈ system.attachments task.org,
    original.id = parent ∧ original.sha256 ≠ sha256 task.content

/-- What a process relies on. -/
def Fits (system : EvidenceSystem) (task : EvidenceTask) : EvidencePhase → Prop
  | .begun | .failed _ => True
  | .verifying _ | .storing | .comparing => system.Superseding sha256 task
  | .writing written => system.Superseding sha256 task ∧ written <+: task.content
  | .linking written => system.Superseding sha256 task ∧ written = task.content
  | .cleaning | .stored | .conflicted =>
      system.Superseding sha256 task ∧ Stored sha256 system.files task.org task.content
  | .inserted row =>
      system.Superseding sha256 task ∧ Stored sha256 system.files task.org task.content ∧
        Describes sha256 task.org row task.content ∧ row.supersedesAttachmentId = task.parent
  | .chosen row | .returning row | .finished row =>
      row ∈ system.attachments task.org ∧ row.sha256 = sha256 task.content

/-- A process has inserted a row of a tenant and not committed it. -/
def Uncommitted (system : EvidenceSystem) (pid : ℕ) (org : Uuid) (row : Attachment) : Prop :=
  ∃ task, system.processes pid = some ⟨task, .inserted row⟩ ∧ task.org = org

/-- Two rows share neither digest nor id. -/
def Apart (row other : Attachment) : Prop := other.sha256 ≠ row.sha256 ∧ other.id ≠ row.id

structure Sound (system : EvidenceSystem) : Prop where
  ledgers : ∀ org, Ledger sha256 system.files org (system.attachments org)
  started : ∀ pid process, system.processes pid = some process → pid ∈ system.started
  fits : ∀ pid task phase, system.processes pid = some ⟨task, phase⟩ →
    system.Fits sha256 task phase
  fresh : ∀ pid org row, system.Uncommitted pid org row →
    ∀ other ∈ system.attachments org, Apart row other
  apart : ∀ pid pid' org row row', pid ≠ pid' → system.Uncommitted pid org row →
    system.Uncommitted pid' org row' → Apart row row'

end EvidenceSystem

end

namespace EvidenceSystem

/-- Files and committed rows stay as they are. -/
structure Evolves (before after : EvidenceSystem) : Prop where
  files : Extends before.files after.files
  attachments : ∀ org, before.attachments org <+: after.attachments org

section

variable {sha256 : List UInt8 → String} {system before middle after : EvidenceSystem}
  {task : EvidenceTask} {phase : EvidencePhase} {pid : ℕ}

theorem Evolves.refl (system : EvidenceSystem) : Evolves system system :=
  ⟨.refl _, fun _ => List.prefix_rfl⟩

theorem Evolves.trans (h : Evolves before middle) (h' : Evolves middle after) :
    Evolves before after :=
  ⟨h.files.trans h'.files, fun org => (h.attachments org).trans (h'.attachments org)⟩

theorem Superseding.evolves (h : before.Superseding sha256 task) (hevolves : Evolves before after) :
    after.Superseding sha256 task := by
  intro parent hparent
  obtain ⟨original, horiginal, hfacts⟩ := h parent hparent
  exact ⟨original, (hevolves.attachments _).subset horiginal, hfacts⟩

/-- What a process relies on stays true. -/
theorem Fits.evolves (h : before.Fits sha256 task phase) (hevolves : Evolves before after) :
    after.Fits sha256 task phase := by
  cases phase with
  | begun => trivial
  | failed failure => trivial
  | verifying original => exact Superseding.evolves h hevolves
  | storing => exact Superseding.evolves h hevolves
  | comparing => exact Superseding.evolves h hevolves
  | writing written => exact ⟨h.1.evolves hevolves, h.2⟩
  | linking written => exact ⟨h.1.evolves hevolves, h.2⟩
  | cleaning => exact ⟨h.1.evolves hevolves, hevolves.files _ _ h.2⟩
  | stored => exact ⟨h.1.evolves hevolves, hevolves.files _ _ h.2⟩
  | conflicted => exact ⟨h.1.evolves hevolves, hevolves.files _ _ h.2⟩
  | inserted row => exact ⟨h.1.evolves hevolves, hevolves.files _ _ h.2.1, h.2.2⟩
  | chosen row => exact ⟨(hevolves.attachments _).subset h.1, h.2⟩
  | returning row => exact ⟨(hevolves.attachments _).subset h.1, h.2⟩
  | finished row => exact ⟨(hevolves.attachments _).subset h.1, h.2⟩

/-! ## Effects -/

theorem evolves_set : Evolves system (system.set pid task phase) :=
  ⟨.refl _, fun _ => List.prefix_rfl⟩

theorem set_processes_self : (system.set pid task phase).processes pid = some ⟨task, phase⟩ :=
  Function.update_self ..

theorem set_processes_of_ne {other : ℕ} (hne : other ≠ pid) :
    (system.set pid task phase).processes other = system.processes other :=
  Function.update_of_ne hne ..

/-- Another process's row is uncommitted as before. -/
theorem uncommitted_set {other : ℕ} {org : Uuid} {row : Attachment}
    (h : (system.set pid task phase).Uncommitted other org row) :
    (other = pid ∧ phase = .inserted row ∧ task.org = org) ∨ system.Uncommitted other org row := by
  obtain ⟨held, hprocess, horg⟩ := h
  by_cases hsame : other = pid
  · subst hsame
    rw [set_processes_self] at hprocess
    obtain ⟨rfl, rfl⟩ := EvidenceProcess.mk.inj (Option.some.inj hprocess)
    exact .inl ⟨rfl, rfl, horg⟩
  · rw [set_processes_of_ne hsame] at hprocess
    exact .inr ⟨held, hprocess, horg⟩

/-- A process moves to a phase that fits. -/
theorem Sound.set (h : system.Sound sha256) (hstarted : pid ∈ system.started)
    (hfits : system.Fits sha256 task phase)
    (hfresh : ∀ row, phase = .inserted row → ∀ other ∈ system.attachments task.org, Apart row other)
    (hapart : ∀ row, phase = .inserted row → ∀ other row', other ≠ pid →
      system.Uncommitted other task.org row' → Apart row row') :
    (system.set pid task phase).Sound sha256 := by
  refine ⟨h.ledgers, fun other process hprocess => ?_, fun other held held' hprocess => ?_,
    fun other org row hrow => ?_, fun other other' org row row' hne hrow hrow' => ?_⟩
  · by_cases hsame : other = pid
    · exact hsame ▸ hstarted
    · rw [set_processes_of_ne hsame] at hprocess
      exact h.started other process hprocess
  · by_cases hsame : other = pid
    · subst hsame
      rw [set_processes_self] at hprocess
      obtain ⟨rfl, rfl⟩ := EvidenceProcess.mk.inj (Option.some.inj hprocess)
      exact hfits
    · rw [set_processes_of_ne hsame] at hprocess
      exact h.fits other held held' hprocess
  · rcases uncommitted_set hrow with ⟨rfl, hphase, rfl⟩ | hold
    · exact hfresh row hphase
    · exact h.fresh other org row hold
  · rcases uncommitted_set hrow with ⟨rfl, hphase, rfl⟩ | hold
    · rcases uncommitted_set hrow' with ⟨rfl, -, -⟩ | hold'
      · exact absurd rfl hne
      · exact hapart row hphase other' row' hne.symm hold'
    · rcases uncommitted_set hrow' with ⟨rfl, hphase', rfl⟩ | hold'
      · have hother := hapart row' hphase' other row hne hold
        exact ⟨hother.1.symm, hother.2.symm⟩
      · exact h.apart other other' org row row' hne hold hold'

/-- A process stops. -/
theorem Sound.stop (h : system.Sound sha256) (pid : ℕ) :
    Sound sha256 { system with processes := Function.update system.processes pid none } := by
  have hkept : ∀ other process, Function.update system.processes pid none other = some process →
      other ≠ pid ∧ system.processes other = some process := by
    intro other process hprocess
    by_cases hsame : other = pid
    · subst hsame
      rw [Function.update_self] at hprocess
      exact nomatch hprocess
    · exact ⟨hsame, (Function.update_of_ne hsame ..).symm.trans hprocess⟩
  have huncommitted : ∀ other org row, Uncommitted
      { system with processes := Function.update system.processes pid none } other org row →
        system.Uncommitted other org row := by
    rintro other org row ⟨held, hprocess, horg⟩
    exact ⟨held, (hkept other _ hprocess).2, horg⟩
  exact ⟨h.ledgers, fun other process hprocess => h.started other process (hkept _ _ hprocess).2,
    fun other held held' hprocess => h.fits other held held' (hkept _ _ hprocess).2,
    fun other org row hrow => h.fresh other org row (huncommitted _ _ _ hrow),
    fun other other' org row row' hne hrow hrow' =>
      h.apart other other' org row row' hne (huncommitted _ _ _ hrow) (huncommitted _ _ _ hrow')⟩

theorem Ledger.extends {files files' : Store String (List UInt8)} {org : Uuid}
    {rows : List Attachment} (h : Ledger sha256 files org rows) (hextends : Extends files files') :
    Ledger sha256 files' org rows := by
  refine ⟨h.hashes, h.ids, fun row hrow => ?_, h.ordered⟩
  obtain ⟨content, hstored, hdescribes⟩ := h.described row hrow
  exact ⟨content, hextends _ _ hstored, hdescribes⟩

/-- A file is linked. -/
theorem Sound.link (h : system.Sound sha256) {files : Store String (List UInt8)}
    (hextends : Extends system.files files) : Sound sha256 { system with files } := by
  have hevolves : Evolves system { system with files } := ⟨hextends, fun _ => List.prefix_rfl⟩
  exact ⟨fun org => Ledger.extends (h.ledgers org) hextends, h.started,
    fun other held held' hprocess => (h.fits other held held' hprocess).evolves hevolves, h.fresh,
    h.apart⟩

theorem evolves_append (system : EvidenceSystem) (org : Uuid) (row : Attachment) :
    Evolves system { system with
      attachments := Function.update system.attachments org (system.attachments org ++ [row]) } := by
  refine ⟨.refl _, fun other => ?_⟩
  by_cases hsame : other = org
  · subst hsame
    show _ <+: Function.update system.attachments other _ other
    rw [Function.update_self]
    exact List.prefix_append ..
  · show _ <+: Function.update system.attachments org _ other
    simp [Function.update_of_ne hsame]

/-- A row is committed that shares no key with another one. -/
theorem Sound.append (h : system.Sound sha256) {org : Uuid} {row : Attachment}
    {content : List UInt8} (hstored : Stored sha256 system.files org content)
    (hdescribes : Describes sha256 org row content)
    (hparent : ∀ parent ∈ row.supersedesAttachmentId, ∃ original ∈ system.attachments org,
      original.id = parent ∧ original.sha256 ≠ row.sha256)
    (hfresh : ∀ other ∈ system.attachments org, Apart row other)
    (hapart : ∀ other row', system.Uncommitted other org row' → Apart row row') :
    Sound sha256 { system with
      attachments := Function.update system.attachments org (system.attachments org ++ [row]) } := by
  have hevolves := evolves_append system org row
  refine ⟨fun other => ?_, h.started, fun other held held' hprocess =>
    (h.fits other held held' hprocess).evolves hevolves, fun other tenant row' hrow' => ?_, h.apart⟩
  · by_cases hsame : other = org
    · subst hsame
      show Ledger sha256 system.files other (Function.update system.attachments other _ other)
      rw [Function.update_self]
      have hledger := h.ledgers other
      refine ⟨hledger.hashes.concat fun r hr => (hfresh r hr).1,
        hledger.ids.concat fun r hr => (hfresh r hr).2, fun r hr => ?_,
        .concat hledger.ordered hparent⟩
      rcases List.mem_append.mp hr with hold | hnew
      · exact hledger.described r hold
      · exact List.mem_singleton.mp hnew ▸ ⟨content, hstored, hdescribes⟩
    · show Ledger sha256 system.files other (Function.update system.attachments org _ other)
      rw [Function.update_of_ne hsame]
      exact h.ledgers other
  · intro r hr
    have hcases : r ∈ system.attachments tenant ∨ tenant = org ∧ r = row := by
      by_cases hsame : tenant = org
      · subst hsame
        have hin : r ∈ system.attachments tenant ++ [row] := by
          rw [← Function.update_self tenant (system.attachments tenant ++ [row]) system.attachments]
          exact hr
        rcases List.mem_append.mp hin with hold | hnew
        · exact .inl hold
        · exact .inr ⟨rfl, List.mem_singleton.mp hnew⟩
      · left
        rw [← Function.update_of_ne hsame (system.attachments org ++ [row]) system.attachments]
        exact hr
    rcases hcases with hold | ⟨rfl, rfl⟩
    · exact h.fresh other tenant row' hrow' r hold
    · have happart := hapart other row' hrow'
      exact ⟨happart.1.symm, happart.2.symm⟩

/-! ## Steps -/

/-- What a step may do in a sound state. -/
def Admits (sha256 : List UInt8 → String) (system : EvidenceSystem) (task : EvidenceTask)
    (phase : EvidencePhase) : Move → Prop
  | .wait => True
  | .goto later => system.Fits sha256 task later ∧ ∀ row, later = .inserted row →
      (∀ other ∈ system.attachments task.org, Apart row other) ∧
        ∀ pid row', system.Uncommitted pid task.org row' → Apart row row'
  | .link content => system.Superseding sha256 task ∧ content = task.content ∧
      system.files (evidenceKey task.org (sha256 task.content)) = none
  | .commit row => phase = .inserted row

/-- A step to a phase that is no insertion. -/
theorem admits_goto {later : EvidencePhase} (hfits : system.Fits sha256 task later)
    (hinserts : (EvidenceProcess.mk task later).uncommitted = none) :
    system.Admits sha256 task phase (.goto later) := by
  refine ⟨hfits, fun row hrow => ?_⟩
  rw [hrow] at hinserts
  exact nomatch hinserts

/-- What a capture verifies is what its row supersedes. -/
theorem prepareCapture_fits {org : Uuid} {content : List UInt8} {values : CaptureValues}
    {later : EvidencePhase} (h : EvidenceService.prepareCapture sha256 (system.attachments org)
      content values = .ok later) :
    system.Fits sha256 (.capture org content values) later ∧
      (EvidenceProcess.mk (.capture org content values) later).uncommitted = none := by
  simp only [EvidenceService.prepareCapture, bind_eq_ok, Service.ensure_eq_ok, exists_unit] at h
  obtain ⟨-, h⟩ := h
  cases hparent : values.supersedesAttachmentId with
  | none =>
      rw [hparent] at h
      obtain rfl := Except.ok.inj h
      refine ⟨fun parent hsome => ?_, rfl⟩
      exact absurd (hparent.symm.trans hsome) (by simp)
  | some parent =>
      rw [hparent] at h
      simp only [bind_eq_ok, Service.fetch_eq_ok, Service.ensure_eq_ok, exists_unit,
        pure_eq_ok] at h
      obtain ⟨original, hfound, hdiffers, rfl⟩ := h
      refine ⟨fun named hnamed => ?_, rfl⟩
      obtain rfl : parent = named := Option.some.inj (hparent.symm.trans hnamed)
      obtain ⟨hmem, hid⟩ := key_of_find? hfound
      exact ⟨original, hmem, hid, hdiffers⟩

theorem read_eq_ok {storage : EvidenceStorage} {org : Uuid} {reference : StoredEvidence}
    {content : List UInt8} : storage.read org reference = .ok content ↔
      (isSha256 reference.sha256 = true ∧ 0 ≤ reference.byteSize ∧
        reference.key = evidenceKey org reference.sha256) ∧
      storage.files reference.key = some content ∧
        (content.length : ℤ) = reference.byteSize ∧ storage.sha256 content = reference.sha256 := by
  simp only [EvidenceStorage.read, bind_eq_ok, Service.ensure_eq_ok, Service.fetch_eq_ok,
    exists_unit, pure_eq_ok]
  constructor
  · rintro ⟨hreference, _, hfile, hcontent, rfl⟩
    exact ⟨hreference, hfile, hcontent⟩
  · rintro ⟨hreference, hfile, hcontent⟩
    exact ⟨hreference, content, hfile, hcontent, rfl⟩

/-- An insertion conflicts with a committed row, or its row is new. -/
theorem insertAttachment_eq_ok {input : StepInput} {org : Uuid} {content : List UInt8}
    {values : CaptureValues} {rows : List Attachment} {inserted : Option Attachment} :
    insertAttachment sha256 input org content values rows = .ok inserted ↔
      ∃ performer, currentAuthenticatedActor input.session = .ok performer ∧
        let row := capturedRow sha256 input org content values performer
        attachmentChecks org row = true ∧
          (((∃ other ∈ rows, other.sha256 = row.sha256) ∧ inserted = none) ∨
            (∀ other ∈ rows, Apart row other) ∧
              (∀ parent ∈ row.supersedesAttachmentId, ∃ original ∈ rows, original.id = parent) ∧
                inserted = some row) := by
  simp only [insertAttachment, bind_eq_ok, require_eq_ok, exists_unit]
  refine exists_congr fun performer => and_congr_right fun _ => and_congr_right fun _ => ?_
  generalize capturedRow sha256 input org content values performer = row
  by_cases hexists : ∃ other ∈ rows, other.sha256 = row.sha256
  · have hany : rows.any (·.sha256 = row.sha256) = true := by simpa using hexists
    have hnot : ¬∀ other ∈ rows, Apart row other := by
      obtain ⟨other, hother, hsame⟩ := hexists
      exact fun hall => (hall other hother).1 hsame
    rw [hany, if_pos rfl, pure_eq_ok]
    constructor
    · rintro rfl
      exact .inl ⟨hexists, rfl⟩
    · rintro (⟨-, rfl⟩ | ⟨hfresh, -⟩)
      · rfl
      · exact absurd hfresh hnot
  · have hany : rows.any (·.sha256 = row.sha256) = false := by
      simpa using hexists
    push Not at hexists
    have hexists' : ¬∃ other ∈ rows, other.sha256 = row.sha256 := by
      rintro ⟨other, hother, hsame⟩
      exact hexists other hother hsame
    rw [hany, if_neg Bool.false_ne_true, admitAttachment]
    simp only [bind_eq_ok, require_eq_ok, exists_unit, pure_eq_ok]
    have hparent : (row.supersedesAttachmentId.all fun parent => rows.any (·.id = parent)) = true ↔
        ∀ parent ∈ row.supersedesAttachmentId, ∃ original ∈ rows, original.id = parent := by
      cases row.supersedesAttachmentId <;> simp
    rw [hparent]
    constructor
    · rintro ⟨hids, hparents, rfl⟩
      exact .inr ⟨fun other hother => ⟨hexists other hother, hids other hother⟩, hparents, rfl⟩
    · rintro (⟨hsame, -⟩ | ⟨hfresh, hparents, rfl⟩)
      · exact absurd hsame hexists'
      · exact ⟨fun other hother => (hfresh other hother).2, hparents, rfl⟩

/-- Where no undecided insertion is in the way, a row is apart from all of them. -/
theorem apart_of_not_contended (h : system.Sound sha256) {org : Uuid} {row : Attachment}
    (hfree : ¬system.contended org row) (other : ℕ) (row' : Attachment)
    (hrow' : system.Uncommitted other org row') : Apart row row' := by
  obtain ⟨held, hprocess, horg⟩ := hrow'
  by_contra hnot
  refine hfree (List.any_eq_true.mpr ⟨other, h.started other _ hprocess, ?_⟩)
  have hclash : row'.sha256 = row.sha256 ∨ row'.id = row.id := by
    by_contra hneither
    exact hnot (not_or.mp hneither)
  simpa [hprocess, horg, EvidenceProcess.uncommitted] using hclash

theorem insertion_admits (h : system.Sound sha256) {input : StepInput} {org : Uuid}
    {content : List UInt8} {values : CaptureValues} {move : Move}
    (hsuperseding : system.Superseding sha256 (.capture org content values))
    (hstored : Stored sha256 system.files org content)
    (hmove : insertion sha256 system input org content values = .ok move) :
    system.Admits sha256 (.capture org content values) phase move := by
  simp only [insertion, bind_eq_ok, Service.translating_eq_ok, Service.execute_eq_ok,
    pure_eq_ok] at hmove
  obtain ⟨inserted, hinserted, rfl⟩ := hmove
  obtain ⟨performer, -, hchecks, hcases⟩ := insertAttachment_eq_ok.mp hinserted
  rcases hcases with ⟨-, rfl⟩ | ⟨hfresh, -, rfl⟩
  · exact admits_goto ⟨hsuperseding, hstored⟩ rfl
  · by_cases hcontended : system.contended org
      (capturedRow sha256 input org content values performer)
    · simp only [hcontended, if_true]
      trivial
    · simp only [hcontended, Bool.false_eq_true, if_false]
      have hhash : isSha256 (sha256 content) = true := by
        simp only [attachmentChecks, Attachment.WellFormed, capturedRow, Bool.and_eq_true] at hchecks
        exact hchecks.1.1.1.1.1.2
      refine ⟨⟨hsuperseding, hstored, ⟨rfl, rfl, rfl, hhash⟩, rfl⟩, fun row hrow => ?_⟩
      obtain rfl := EvidencePhase.inserted.inj hrow
      exact ⟨hfresh, apart_of_not_contended h hcontended⟩

/-- Every step of a process is admitted. -/
theorem Sound.admits (h : system.Sound sha256)
    (hprocess : system.processes pid = some ⟨task, phase⟩) {input : StepInput} {move : Move}
    (hmove : system.next sha256 input ⟨task, phase⟩ = .ok move) :
    system.Admits sha256 task phase move := by
  have hfits := h.fits pid task phase hprocess
  cases phase with
  | begun =>
      cases task with
      | put org content =>
          simp only [next, Except.ok.injEq] at hmove
          subst hmove
          exact admits_goto (fun _ hparent => nomatch hparent) rfl
      | capture org content values =>
          simp only [next, bind_eq_ok, pure_eq_ok] at hmove
          obtain ⟨later, hprepared, rfl⟩ := hmove
          obtain ⟨hlater, hinserts⟩ := prepareCapture_fits hprepared
          exact admits_goto hlater hinserts
  | verifying original =>
      simp only [next, bind_eq_ok, pure_eq_ok] at hmove
      obtain ⟨_, -, rfl⟩ := hmove
      have hstoring : system.Fits sha256 task .storing := hfits
      exact admits_goto hstoring rfl
  | storing =>
      simp only [next, bind_eq_ok, Service.ensure_eq_ok, exists_unit, pure_eq_ok] at hmove
      obtain ⟨-, rfl⟩ := hmove
      exact admits_goto ⟨hfits, List.nil_prefix⟩ rfl
  | writing written =>
      by_cases hwritten : written = task.content
      · simp only [next, hwritten, if_true, Except.ok.injEq] at hmove
        subst hmove
        exact admits_goto ⟨hfits.1, rfl⟩ rfl
      · simp only [next, hwritten, if_false, Except.ok.injEq] at hmove
        subst hmove
        exact admits_goto ⟨hfits.1, List.take_prefix ..⟩ rfl
  | linking written =>
      by_cases htaken : (system.files (evidenceKey task.org (sha256 task.content))).isSome
      · simp only [next, htaken, if_true, Except.ok.injEq] at hmove
        subst hmove
        exact admits_goto hfits.1 rfl
      · simp only [next, htaken, Bool.false_eq_true, if_false, Except.ok.injEq] at hmove
        subst hmove
        exact ⟨hfits.1, hfits.2, by simpa using htaken⟩
  | comparing =>
      simp only [next, bind_eq_ok, read_eq_ok, Service.ensure_eq_ok, exists_unit,
        pure_eq_ok] at hmove
      obtain ⟨existing, ⟨-, hfile, -⟩, rfl, rfl⟩ := hmove
      exact admits_goto ⟨hfits, hfile⟩ rfl
  | cleaning =>
      simp only [next, Except.ok.injEq] at hmove
      subst hmove
      have hstored : system.Fits sha256 task .stored := hfits
      exact admits_goto hstored rfl
  | stored =>
      cases task with
      | put org content =>
          simp only [next, Except.ok.injEq] at hmove
          subst hmove
          trivial
      | capture org content values => exact insertion_admits h hfits.1 hfits.2 hmove
  | inserted row =>
      simp only [next, Except.ok.injEq] at hmove
      subst hmove
      exact rfl
  | conflicted =>
      cases task with
      | put org content =>
          simp only [next, Except.ok.injEq] at hmove
          subst hmove
          trivial
      | capture org content values =>
          simp only [next, EvidenceService.chooseExisting, bind_eq_ok, Service.fetch_eq_ok,
            Service.ensure_eq_ok, exists_unit, pure_eq_ok] at hmove
          obtain ⟨row, ⟨_, hfound, -, rfl⟩, rfl⟩ := hmove
          obtain ⟨hmem, hhash⟩ := key_of_find? hfound
          exact admits_goto ⟨hmem, hhash⟩ rfl
  | chosen row =>
      simp only [next, bind_eq_ok, pure_eq_ok] at hmove
      obtain ⟨_, -, rfl⟩ := hmove
      have hreturning : system.Fits sha256 task (.returning row) := hfits
      exact admits_goto hreturning rfl
  | returning row =>
      simp only [next, Except.ok.injEq] at hmove
      subst hmove
      have hfinished : system.Fits sha256 task (.finished row) := hfits
      exact admits_goto hfinished rfl
  | finished row =>
      simp only [next, Except.ok.injEq] at hmove
      subst hmove
      trivial
  | failed failure =>
      simp only [next, Except.ok.injEq] at hmove
      subst hmove
      trivial

/-! ## Runs -/

theorem Sound.goto (h : system.Sound sha256)
    (hprocess : system.processes pid = some ⟨task, phase⟩) {later : EvidencePhase}
    (hadmits : system.Admits sha256 task phase (.goto later)) :
    (system.set pid task later).Sound sha256 := by
  refine h.set (h.started pid _ hprocess) hadmits.1 (fun row hrow => (hadmits.2 row hrow).1) ?_
  exact fun row hrow other row' _ hrow' => (hadmits.2 row hrow).2 other row' hrow'

/-- The uncommitted row is committed. -/
theorem Sound.commit (h : system.Sound sha256) {row : Attachment}
    (hprocess : system.processes pid = some ⟨task, .inserted row⟩) :
    Sound sha256 ({ system with
      attachments := Function.update system.attachments task.org
        (system.attachments task.org ++ [row]) }.set pid task (.finished row)) := by
  obtain ⟨hsuperseding, hstored, hdescribes, hparent⟩ := h.fits pid task _ hprocess
  have hrow : system.Uncommitted pid task.org row := ⟨task, hprocess, rfl⟩
  -- Without the process there is no undecided insertion of the row.
  have hstopped := h.stop pid
  have hapart : ∀ other row', Uncommitted
      { system with processes := Function.update system.processes pid none } other task.org row' →
        Apart row row' := by
    rintro other row' ⟨held, hheld, horg⟩
    have hne : pid ≠ other := by
      rintro rfl
      exact nomatch (Function.update_self ..).symm.trans hheld
    have hother : system.Uncommitted other task.org row' :=
      ⟨held, (Function.update_of_ne hne.symm ..).symm.trans hheld, horg⟩
    exact h.apart pid other task.org row row' hne hrow hother
  have hsupersedes : ∀ parent ∈ row.supersedesAttachmentId,
      ∃ original ∈ system.attachments task.org,
        original.id = parent ∧ original.sha256 ≠ row.sha256 := by
    rw [hparent, hdescribes.sha256]
    exact hsuperseding
  have happended := hstopped.append hstored hdescribes hsupersedes (h.fresh pid _ row hrow) hapart
  have hmem : row ∈ Function.update system.attachments task.org
      (system.attachments task.org ++ [row]) task.org := by
    rw [Function.update_self]
    exact List.mem_append_right _ (List.mem_singleton_self row)
  have hfinished : Fits sha256 { system with
      attachments := Function.update system.attachments task.org
        (system.attachments task.org ++ [row])
      processes := Function.update system.processes pid none } task (.finished row) :=
    ⟨hmem, hdescribes.sha256⟩
  have hset := happended.set (h.started pid _ hprocess) hfinished
    (fun _ hphase => nomatch hphase) (fun _ hphase => nomatch hphase)
  unfold EvidenceSystem.set at hset ⊢
  simpa only [Function.update_idem] using hset

theorem Sound.apply (h : system.Sound sha256)
    (hprocess : system.processes pid = some ⟨task, phase⟩) (input : StepInput) :
    let after := system.apply sha256 pid task (system.next sha256 input ⟨task, phase⟩)
    after.Sound sha256 ∧ Evolves system after := by
  cases hmove : system.next sha256 input ⟨task, phase⟩ with
  | error failure =>
      have hfailed : system.Admits sha256 task phase (.goto (.failed failure)) :=
        admits_goto trivial rfl
      exact ⟨h.goto hprocess hfailed, evolves_set⟩
  | ok move =>
      have hadmits := h.admits hprocess hmove
      cases move with
      | wait => exact ⟨h, .refl _⟩
      | goto later => exact ⟨h.goto hprocess hadmits, evolves_set⟩
      | link content =>
          obtain ⟨hsuperseding, rfl, hfree⟩ := hadmits
          let files := WriteOnce.link system.files (evidenceKey task.org (sha256 task.content))
            task.content
          have hextends : Extends system.files files := extends_link _ _ _
          have hevolves : Evolves system { system with files } :=
            ⟨hextends, fun _ => List.prefix_rfl⟩
          have hstored : Stored sha256 files task.org task.content := by
            show WriteOnce.link system.files _ _ _ = _
            rw [link_self, hfree, Option.getD_none]
          have hcleaning : Admits sha256 { system with files } task phase (.goto .cleaning) :=
            admits_goto ⟨hsuperseding.evolves hevolves, hstored⟩ rfl
          exact ⟨(h.link hextends).goto hprocess hcleaning, hevolves.trans evolves_set⟩
      | commit row =>
          obtain rfl := hadmits
          exact ⟨h.commit hprocess, (evolves_append system task.org row).trans evolves_set⟩

theorem Sound.step (h : system.Sound sha256) (action : EvidenceAction) :
    (system.step sha256 action).Sound sha256 ∧ Evolves system (system.step sha256 action) := by
  cases action with
  | start pid task =>
      by_cases hstarted : pid ∈ system.started
      · rw [EvidenceSystem.step, if_pos hstarted]
        exact ⟨h, .refl _⟩
      · rw [EvidenceSystem.step, if_neg hstarted]
        have hadded : Sound sha256 { system with started := pid :: system.started } :=
          ⟨h.ledgers, fun other process hprocess =>
            List.mem_cons_of_mem _ (h.started other process hprocess), h.fits, h.fresh, h.apart⟩
        refine ⟨hadded.set (List.mem_cons_self ..) trivial ?_ ?_, .refl _, fun _ => List.prefix_rfl⟩
        · exact fun row hrow => nomatch hrow
        · exact fun row hrow => nomatch hrow
  | advance pid input =>
      cases hprocess : system.processes pid with
      | none =>
          simp only [EvidenceSystem.step, hprocess]
          exact ⟨h, .refl _⟩
      | some process =>
          simp only [EvidenceSystem.step, hprocess]
          exact h.apply hprocess input
  | stop pid => exact ⟨h.stop pid, .refl _, fun _ => List.prefix_rfl⟩

theorem Sound.run (actions : List EvidenceAction) {system : EvidenceSystem}
    (h : system.Sound sha256) :
    (system.run sha256 actions).Sound sha256 ∧ Evolves system (system.run sha256 actions) := by
  induction actions generalizing system with
  | nil => exact ⟨h, .refl _⟩
  | cons action rest ih =>
      obtain ⟨hsound, hevolves⟩ := h.step action
      obtain ⟨hrun, hlater⟩ := ih hsound
      exact ⟨hrun, hevolves.trans hlater⟩

theorem Sound.empty : empty.Sound sha256 := by
  constructor
  · exact fun _ => ⟨distinct_nil, distinct_nil, fun _ hrow => absurd hrow List.not_mem_nil, .nil⟩
  · exact fun _ _ hprocess => nomatch hprocess
  · exact fun _ _ _ hprocess => nomatch hprocess
  · exact fun _ _ _ hrow => nomatch hrow.choose_spec.1
  · exact fun _ _ _ _ _ _ hrow => nomatch hrow.choose_spec.1

/-! ## Capturing again -/

/-- A process takes the steps between two states. -/
def Leads (sha256 : List UInt8 → String) (pid : ℕ) (input : StepInput)
    (before after : EvidenceSystem) : Prop :=
  ∃ steps, before.run sha256 (List.replicate steps (.advance pid input)) = after

variable {input : StepInput}

theorem Leads.refl (system : EvidenceSystem) : Leads sha256 pid input system system := ⟨0, rfl⟩

/-- A process in a phase takes its next step. -/
theorem Leads.goto {later : EvidencePhase}
    (hnext : (system.set pid task phase).next sha256 input ⟨task, phase⟩ = .ok (.goto later))
    (hafter : Leads sha256 pid input (system.set pid task later) after) :
    Leads sha256 pid input (system.set pid task phase) after := by
  obtain ⟨steps, hsteps⟩ := hafter
  refine ⟨steps + 1, ?_⟩
  have hstep : (system.set pid task phase).step sha256 (.advance pid input) =
      system.set pid task later := by
    simp only [EvidenceSystem.step, set_processes_self, hnext, EvidenceSystem.apply]
    unfold EvidenceSystem.set
    simp only [Function.update_idem]
  rw [List.replicate_succ, EvidenceSystem.run, List.foldl_cons, hstep]
  exact hsteps

/-- The content of a committed row can be read. -/
theorem Ledger.readContent {files : Store String (List UInt8)} {org : Uuid}
    {rows : List Attachment} (h : Ledger sha256 files org rows) {row : Attachment}
    (hrow : row ∈ rows) :
    ∃ content, EvidenceService.readContent (some ⟨files, sha256⟩) org row = .ok content := by
  obtain ⟨content, hstored, hdescribes⟩ := h.described row hrow
  refine ⟨content, read_eq_ok.mpr ⟨⟨hdescribes.hash, ?_, hdescribes.storageKey⟩, ?_, ?_, ?_⟩⟩
  · rw [hdescribes.byteSize]
    exact Int.natCast_nonneg _
  · show files row.storageKey = some content
    rw [hdescribes.storageKey, hdescribes.sha256]
    exact hstored
  · exact hdescribes.byteSize.symm
  · exact hdescribes.sha256.symm

section

variable {org : Uuid} {content : List UInt8} {values : CaptureValues} {row : Attachment}

/-- A capture that is alone takes some steps. -/
def capturing (pid : ℕ) (org : Uuid) (content : List UInt8) (values : CaptureValues)
    (input : StepInput) (steps : ℕ) : List EvidenceAction :=
  .start pid (.capture org content values) :: List.replicate steps (.advance pid input)

/-- What a capture may name besides content that is there: a valid row, with no other parent than
the committed row's. -/
structure Recaptures (sha256 : List UInt8 → String) (system : EvidenceSystem) (input : StepInput)
    (org : Uuid) (content : List UInt8) (values : CaptureValues) (row : Attachment) : Prop where
  mem : row ∈ system.attachments org
  hash : row.sha256 = sha256 content
  supplied : values.sha256.all (· = sha256 content) = true
  parent : values.supersedesAttachmentId = none ∨
    values.supersedesAttachmentId = row.supersedesAttachmentId
  valid : ∃ performer, currentAuthenticatedActor input.session = .ok performer ∧
    attachmentChecks org (capturedRow sha256 input org content values performer) = true
  chunk : content.length ≤ input.chunk
  /-- The digest is injective on the contents in play. -/
  injective : ∀ key other, system.files key = some other → sha256 other = sha256 content →
    other = content

variable (h : system.Sound sha256) (hvalues : Recaptures sha256 system input org content values row)

include h hvalues

theorem Recaptures.stored : Stored sha256 system.files org content := by
  obtain ⟨other, hstored, hdescribes⟩ := (h.ledgers org).described row hvalues.mem
  have hsame : sha256 other = sha256 content := hdescribes.sha256.symm.trans hvalues.hash
  obtain rfl := hvalues.injective _ other hstored hsame
  exact hstored

theorem Recaptures.isSha256 : FleetOps.isSha256 (sha256 content) = true := by
  obtain ⟨_, -, hdescribes⟩ := (h.ledgers org).described row hvalues.mem
  rw [← hvalues.hash]
  exact hdescribes.hash

/-- The check before the content is put. -/
theorem Recaptures.prepared (pid : ℕ) :
    Leads sha256 pid input (system.set pid (.capture org content values) .storing) after →
      Leads sha256 pid input (system.set pid (.capture org content values) .begun) after := by
  intro hafter
  cases hparent : values.supersedesAttachmentId with
  | none =>
      have hprepared : EvidenceService.prepareCapture sha256 (system.attachments org) content
          values = .ok .storing := by
        simp only [EvidenceService.prepareCapture, hparent, bind_eq_ok, Service.ensure_eq_ok,
          exists_unit, hvalues.supplied, true_and]
        rfl
      refine Leads.goto ?_ hafter
      exact bind_eq_ok.mpr ⟨_, hprepared, rfl⟩
  | some parent =>
      have hledger := h.ledgers org
      have hrow : row.supersedesAttachmentId = some parent :=
        (hvalues.parent.resolve_left (by simp [hparent])).symm.trans hparent
      obtain ⟨original, hmem, hid, -, hdiffers⟩ := hledger.ordered.parent hvalues.mem hrow
      have hfound : (system.attachments org).find? (·.id = parent) = some original :=
        hledger.ids.find?_eq hmem hid
      obtain ⟨found, hread⟩ := Ledger.readContent hledger hmem
      have hprepared : EvidenceService.prepareCapture sha256 (system.attachments org) content
          values = .ok (.verifying original) := by
        simp only [EvidenceService.prepareCapture, hparent, bind_eq_ok, Service.ensure_eq_ok,
          exists_unit, hvalues.supplied, true_and, Service.fetch_eq_ok, pure_eq_ok]
        exact ⟨original, hfound, hvalues.hash ▸ hdiffers, rfl⟩
      have hbegun : (system.set pid (.capture org content values) .begun).next sha256 input
          ⟨.capture org content values, .begun⟩ = .ok (.goto (.verifying original)) :=
        bind_eq_ok.mpr ⟨_, hprepared, rfl⟩
      refine Leads.goto hbegun (Leads.goto ?_ hafter)
      exact bind_eq_ok.mpr ⟨found, hread, rfl⟩

/-- The content is put again, and compared with what is stored. -/
theorem Recaptures.put (pid : ℕ) :
    Leads sha256 pid input (system.set pid (.capture org content values) .stored) after →
      Leads sha256 pid input (system.set pid (.capture org content values) .storing) after := by
  intro hafter
  have hstored : system.files (evidenceKey org (sha256 content)) = some content :=
    hvalues.stored h
  have hread : EvidenceStorage.read ⟨system.files, sha256⟩ org
      ⟨evidenceKey org (sha256 content), sha256 content, content.length⟩ = .ok content :=
    read_eq_ok.mpr ⟨⟨hvalues.isSha256 h, Int.natCast_nonneg _, rfl⟩, hstored, rfl, rfl⟩
  let task : EvidenceTask := .capture org content values
  have hcleaning : Leads sha256 pid input (system.set pid task .cleaning) after :=
    Leads.goto rfl hafter
  have hcomparing : Leads sha256 pid input (system.set pid task .comparing) after := by
    refine Leads.goto ?_ hcleaning
    exact bind_eq_ok.mpr ⟨content, hread, bind_eq_ok.mpr ⟨(), Service.ensure_eq_ok.mpr rfl, rfl⟩⟩
  have hlinking : Leads sha256 pid input (system.set pid task (.linking content)) after := by
    refine Leads.goto ?_ hcomparing
    show (if (system.files (evidenceKey org (sha256 content))).isSome then _ else _) = _
    rw [hstored]
    rfl
  have hwritten : Leads sha256 pid input (system.set pid task (.writing content)) after := by
    refine Leads.goto ?_ hlinking
    exact if_pos rfl
  have hempty : Leads sha256 pid input (system.set pid task (.writing [])) after := by
    by_cases hnil : [] = content
    · rwa [hnil]
    · refine Leads.goto ?_ hwritten
      have hall : content.take (([] : List UInt8).length + input.chunk) = content := by
        rw [List.length_nil, Nat.zero_add, List.take_of_length_le hvalues.chunk]
      have hnext : (system.set pid task (.writing [])).next sha256 input ⟨task, .writing []⟩ =
          .ok (.goto (.writing (content.take (([] : List UInt8).length + input.chunk)))) :=
        if_neg hnil
      rw [hnext, hall]
  refine Leads.goto ?_ hempty
  exact bind_eq_ok.mpr ⟨(), Service.ensure_eq_ok.mpr (hvalues.isSha256 h), rfl⟩

/-- The insertion conflicts with the committed row, which is returned. -/
theorem Recaptures.chosen (pid : ℕ) :
    Leads sha256 pid input (system.set pid (.capture org content values) .stored)
      (system.set pid (.capture org content values) (.finished row)) := by
  let task : EvidenceTask := .capture org content values
  have hledger := h.ledgers org
  obtain ⟨found, hread⟩ := Ledger.readContent hledger hvalues.mem
  have hreturning : Leads sha256 pid input (system.set pid task (.returning row))
      (system.set pid task (.finished row)) := Leads.goto rfl (.refl _)
  have hchosen : Leads sha256 pid input (system.set pid task (.chosen row))
      (system.set pid task (.finished row)) := by
    refine Leads.goto ?_ hreturning
    exact bind_eq_ok.mpr ⟨found, hread, rfl⟩
  have hconflicted : Leads sha256 pid input (system.set pid task .conflicted)
      (system.set pid task (.finished row)) := by
    refine Leads.goto ?_ hchosen
    have hfound : (system.attachments org).find? (·.sha256 = sha256 content) = some row :=
      hledger.hashes.find?_eq hvalues.mem hvalues.hash
    have hexisting : EvidenceService.chooseExisting sha256 (system.attachments org) content values =
        .ok row := by
      simp only [EvidenceService.chooseExisting, bind_eq_ok, Service.fetch_eq_ok,
        Service.ensure_eq_ok, exists_unit, pure_eq_ok]
      exact ⟨row, hfound, hvalues.parent.imp id Eq.symm, rfl⟩
    exact bind_eq_ok.mpr ⟨row, hexisting, rfl⟩
  refine Leads.goto ?_ hconflicted
  obtain ⟨performer, hperformer, hchecks⟩ := hvalues.valid
  have hinserted : insertAttachment sha256 input org content values (system.attachments org) =
      .ok none :=
    insertAttachment_eq_ok.mpr ⟨performer, hperformer, hchecks,
      .inl ⟨⟨row, hvalues.mem, hvalues.hash⟩, rfl⟩⟩
  show insertion sha256 (system.set pid task .stored) input org content values = _
  simp only [insertion, bind_eq_ok, Service.translating_eq_ok, Service.execute_eq_ok, pure_eq_ok]
  exact ⟨none, hinserted, rfl⟩

/-- A capture of content that is there, which nothing else disturbs, returns the committed row and
changes nothing. -/
theorem Recaptures.returns {pid : ℕ} (hpid : pid ∉ system.started) :
    ∃ steps, let later := system.run sha256 (capturing pid org content values input steps)
      later.processes pid = some ⟨.capture org content values, .finished row⟩ ∧
        later.attachments = system.attachments ∧ later.files = system.files := by
  let begun : EvidenceSystem := { system with started := pid :: system.started }
  have hbegun : begun.Sound sha256 :=
    ⟨h.ledgers, fun other process hprocess =>
      List.mem_cons_of_mem _ (h.started other process hprocess), h.fits, h.fresh, h.apart⟩
  have hsame : Recaptures sha256 begun input org content values row := by
    obtain ⟨hmem, hhash, hsupplied, hparent, hvalid, hchunk, hinjective⟩ := hvalues
    exact ⟨hmem, hhash, hsupplied, hparent, hvalid, hchunk, hinjective⟩
  obtain ⟨steps, hsteps⟩ := hsame.prepared hbegun pid
    (hsame.put hbegun pid (hsame.chosen hbegun pid))
  refine ⟨steps, ?_⟩
  have hstart : system.step sha256 (.start pid (.capture org content values)) =
      begun.set pid (.capture org content values) .begun := if_neg hpid
  have hrun : system.run sha256 (capturing pid org content values input steps) =
      begun.set pid (.capture org content values) (.finished row) := by
    rw [EvidenceSystem.run, capturing, List.foldl_cons, hstart]
    exact hsteps
  intro later
  have hlater : later = begun.set pid (.capture org content values) (.finished row) := hrun
  rw [hlater]
  exact ⟨set_processes_self, rfl, rfl⟩

end

end

end EvidenceSystem

/-! ## Captures -/

open EvidenceSystem

/-- Evidence is addressed by its content and never overwritten, whatever the processes do. -/
theorem evidenceCaptured (sha256 : List UInt8 → String) (actions later : List EvidenceAction) :
    let before := EvidenceSystem.empty.run sha256 actions
    let after := before.run sha256 later
    (∀ org, Distinct Attachment.sha256 (after.attachments org)) ∧
    (∀ org, before.attachments org <+: after.attachments org) ∧
    (∀ org, ∀ row ∈ before.attachments org, ∃ content,
      before.files row.storageKey = some content ∧ after.files row.storageKey = some content ∧
        sha256 content = row.sha256 ∧ (content.length : ℤ) = row.byteSize) ∧
    (∀ org, ∀ row ∈ before.attachments org, ∀ pid task result,
      after.processes pid = some ⟨task, .finished result⟩ → task.org = org →
        sha256 task.content = row.sha256 → result = row) ∧
    (∀ org row content values input pid,
      Recaptures sha256 before input org content values row → pid ∉ before.started →
        ∃ steps, let returned := before.run sha256 (capturing pid org content values input steps)
          returned.processes pid = some ⟨.capture org content values, .finished row⟩ ∧
            returned.attachments = before.attachments ∧ returned.files = before.files) ∧
    ∀ org, (∀ row, ¬TransGen (SupersedesAttachment (after.attachments org)) row row) ∧
      ∀ row original, SupersedesAttachment (after.attachments org) row original →
        ∀ content superseded, after.files row.storageKey = some content →
          after.files original.storageKey = some superseded → content ≠ superseded := by
  intro before after
  have hbefore : before.Sound sha256 := (Sound.empty.run actions).1
  obtain ⟨hafter, hevolves⟩ := hbefore.run later
  -- What is stored under a row's key is what the row describes.
  have hcontent : ∀ org, ∀ row ∈ after.attachments org, ∀ content,
      after.files row.storageKey = some content → sha256 content = row.sha256 := by
    intro org row hrow content hfile
    obtain ⟨described, hstored, hdescribes⟩ := (hafter.ledgers org).described row hrow
    rw [hdescribes.storageKey, hdescribes.sha256, hstored, Option.some.injEq] at hfile
    exact hfile ▸ hdescribes.sha256.symm
  refine ⟨fun org => (hafter.ledgers org).hashes, hevolves.attachments, fun org row hrow => ?_,
    fun org row hrow pid task result hresult horg hhash => ?_,
    fun org row content values input pid hvalues hpid => hvalues.returns hbefore hpid,
    fun org => ⟨(hafter.ledgers org).ordered.acyclic (hafter.ledgers org).ids, ?_⟩⟩
  · obtain ⟨content, hstored, hdescribes⟩ := (hbefore.ledgers org).described row hrow
    have hfile : before.files row.storageKey = some content := by
      rw [hdescribes.storageKey, hdescribes.sha256]
      exact hstored
    exact ⟨content, hfile, hevolves.files _ _ hfile, hdescribes.sha256.symm,
      hdescribes.byteSize.symm⟩
  · obtain ⟨hmem, hsame⟩ := hafter.fits pid task _ hresult
    rw [horg] at hmem
    exact (hafter.ledgers org).hashes.eq hmem ((hevolves.attachments org).subset hrow)
      (hsame.trans hhash)
  · intro row original hlink content superseded hfile hsuperseded heq
    have hledger := hafter.ledgers org
    obtain ⟨-, hdiffers⟩ := hledger.ordered.supersedes hledger.ids hlink
    refine hdiffers ?_
    rw [← hcontent org row hlink.1 content hfile,
      ← hcontent org original hlink.2.1 superseded hsuperseded, heq]

/-- The SHA-256 of the sample's content; no other content is hashed in it. -/
def samplePdfHash (content : List UInt8) : String :=
  if content = [37, 80] then "b9c39a040804e0b3424df7b13a11cca1d0e45bd246b541acb1177429cd3236ab"
  else String.ofList (List.replicate 64 '0')

/-- An upload of that content. -/
def sampleUpload : CaptureValues :=
  ⟨none, "application/pdf", .document, .at 0, "report.pdf", none⟩

/-- A request of an authenticated actor. -/
def sampleInput (id : Uuid) : StepInput := ⟨2, id, ⟨some 100, some ⟨100, some 1⟩, none, .at 0⟩⟩

/-- The row of the upload. -/
def sampleAttachment : Attachment :=
  capturedRow samplePdfHash (sampleInput 7) 100 [37, 80] sampleUpload 1

/-- The same content captured again gives the row of the first capture. -/
theorem evidenceCaptured_again :
    let before := EvidenceSystem.empty.run samplePdfHash
      (capturing 1 100 [37, 80] sampleUpload (sampleInput 7) 8)
    ∃ steps, (before.run samplePdfHash
      (capturing 2 100 [37, 80] sampleUpload (sampleInput 8) steps)).processes 2 =
        some ⟨.capture 100 [37, 80] sampleUpload, .finished sampleAttachment⟩ := by
  intro before
  have hrows : before.attachments 100 = [sampleAttachment] := by decide
  have hfile : before.files = Function.update (fun _ => none) sampleAttachment.storageKey
      (some [37, 80]) := rfl
  obtain ⟨-, -, -, -, hagain, -⟩ := evidenceCaptured samplePdfHash
    (capturing 1 100 [37, 80] sampleUpload (sampleInput 7) 8) []
  have hvalues : Recaptures samplePdfHash before (sampleInput 8) 100 [37, 80] sampleUpload
      sampleAttachment := by
    refine ⟨by rw [hrows]; exact List.mem_singleton_self _, rfl, rfl, .inl rfl,
      ⟨1, rfl, by decide⟩, Nat.le_refl _, fun key other hstored _ => ?_⟩
    rw [hfile] at hstored
    by_cases hkey : key = sampleAttachment.storageKey
    · rw [hkey, Function.update_self, Option.some.injEq] at hstored
      exact hstored.symm
    · rw [Function.update_of_ne hkey] at hstored
      exact nomatch hstored
  obtain ⟨steps, hfinished, -, -⟩ := hagain 100 sampleAttachment [37, 80] sampleUpload
    (sampleInput 8) 2 hvalues (by decide)
  exact ⟨steps, hfinished⟩

end FleetOps
