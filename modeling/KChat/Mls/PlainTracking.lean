import KChat.Mls.PlainCommits
import KChat.Mls.Tracking

/-!
# Pending commits without cryptography

* `plainCommits_storesGroups`, `plainCommits_keepsCommits`; `plainTables`: the tables that
  `plainCommits` is stored in, with one row for a group.
* `Plain.runCalls`: calls without failures. **`not_tracked`**: two runs that leave a commit pending
  and nothing recorded.
-/

namespace KChat.Mls

open Lib OpenMls

open Storage (Database)

namespace Plain

variable {α : Type}

theorem othersKept_write (db : PlainDb) (g : PlainGroup) :
    OthersKept plainCommits g.id db (write db g) := by
  intro other hother
  have h := congrFun (stored_write_eq db g) other
  rw [Function.update_of_ne hother] at h
  exact h

theorem change_changes (a : α) {f : PlainGroup → PlainGroup} (hf : ∀ g, (f g).id = g.id) :
    Changes (M := plainCommits) (change a f) := by
  intro fault s
  cases fault with
  | some e => trivial
  | none =>
    refine ⟨hf s.self, ?_⟩
    show OthersKept plainCommits s.self.id s.world (write s.world (f s.self))
    rw [← hf s.self]
    exact othersKept_write _ _

theorem changeIf_changes (pending : Bool) (a : α) {f : PlainGroup → PlainGroup}
    (hf : ∀ g, (f g).id = g.id) : Changes (M := plainCommits) (changeIf pending a f) := by
  intro fault s
  by_cases h : s.self.pending = pending
  · have hchange := change_changes a hf fault s
    unfold wp at hchange ⊢
    rw [changeIf_of_eq h]
    exact hchange
  · exact (wp_of_error (changeIf_of_ne h a f fault)).mpr trivial

theorem idle_write (db : PlainDb) {g : PlainGroup} (hg : g.pending = false) :
    Idle plainCommits g.id (write db g) := by
  intro g' hg'
  obtain rfl := Option.some.inj ((stored_write db g).symm.trans hg')
  exact hg

theorem change_calms (a : α) {f : PlainGroup → PlainGroup} (hf : ∀ g, (f g).id = g.id)
    (hidle : ∀ g, (f g).pending = false) : Calms (M := plainCommits) (change a f) := by
  intro fault s
  cases fault with
  | some e => trivial
  | none =>
    show Idle plainCommits s.self.id (write s.world (f s.self))
    rw [← hf s.self]
    exact idle_write _ (hidle _)

theorem changeIf_calms (pending : Bool) (a : α) {f : PlainGroup → PlainGroup}
    (hf : ∀ g, (f g).id = g.id) (hidle : ∀ g, (f g).pending = false) :
    Calms (M := plainCommits) (changeIf pending a f) := by
  intro fault s
  by_cases h : s.self.pending = pending
  · have hchange := change_calms a hf hidle fault s
    unfold wp at hchange ⊢
    rw [changeIf_of_eq h]
    exact hchange
  · exact (wp_of_error (changeIf_of_ne h a f fault)).mpr trivial

theorem writeNew_othersKept (g : PlainGroup) (fault : Option String) (db : PlainDb) :
    wp (writeNew g fault) db (fun _ db' => OthersKept plainCommits g.id db db') fun _ _ => True := by
  cases fault with
  | some e => trivial
  | none => exact othersKept_write db g

/-- Commits and proposals are told apart by their first byte. -/
def contentType : PlainMessage → ContentType
  | .commit _ _ => .commit
  | .proposal _ _ => .proposal
  | .welcome _ => .application

theorem judge_contentType {g : PlainGroup} {m : PlainMessage}
    {r : ProcessedMessage Unit PlainProposal} (h : judge g m = .ok r) :
    ContentType.of r.content = contentType m := by
  cases m with
  | commit epoch references =>
    simp only [judge] at h
    split_ifs at h
    obtain rfl := Except.ok.inj h
    rfl
  | proposal epoch proposal =>
    simp only [judge] at h
    split_ifs at h
    obtain rfl := Except.ok.inj h
    rfl
  | welcome keyPackage => cases h

end Plain

/-- Both libraries store alike. -/
theorem Plain.writes_plainCommits {α : Type} {x : plain.GroupMethod α} (h : Writes (M := plain) x) :
    Writes (M := plainCommits.toOpenMls) x := ⟨h.groupId, h.stored⟩

open Plain

theorem plainCommits_storesGroups : plainCommits.StoresGroups where
  groupId := plain_storesGroups.groupId
  loadOptimize := plain_storesGroups.loadOptimize
  load := plain_storesGroups.load
  processMessage := plain_storesGroups.processMessage
  mergeStagedCommit commit := writes_plainCommits (plain_storesGroups.mergeStagedCommit commit)
  storePendingProposal p := writes_plainCommits (plain_storesGroups.storePendingProposal p)
  commitToPendingProposals _ := writes_plainCommits
    (changeIf_writes false _ (f := fun g => propose g.members g) fun _ => rfl)
  mergePendingCommit := writes_plainCommits
    (changeIf_writes true () (f := fun g => { nextEpoch g with members := g.next, next := [] })
      fun _ => rfl)
  clearPendingCommit := writes_plainCommits plain_storesGroups.clearPendingCommit
  stageWelcome := plain_storesGroups.stageWelcome
  intoGroup := plain_storesGroups.intoGroup

theorem plainCommits_keepsCommits : plainCommits.KeepsCommits contentType where
  content m fault s := by
    cases fault with
    | some e => trivial
    | none =>
      cases hjudge : judge s.self m with
      | ok r =>
        have hrun : (plainCommits.processMessage m none).run s = .ok r s := by
          simp only [plainCommits, EStateM.run, hjudge]
        exact (wp_of_ok hrun).mpr (judge_contentType hjudge)
      | error e =>
        have hrun : (plainCommits.processMessage m none).run s = .error e s := by
          simp only [plainCommits, EStateM.run, hjudge]
        exact (wp_of_error hrun).mpr trivial
  changes_mergeStagedCommit _ := change_changes () fun _ => rfl
  calms_mergeStagedCommit _ := change_calms () (fun _ => rfl) fun _ => rfl
  storePendingProposal p := change_changes ()
    (f := fun g => { g with queue := g.queue ++ [p.reference] }) fun _ => rfl
  commitToPendingProposals _ := changeIf_changes false _ fun _ => rfl
  changes_mergePendingCommit := changeIf_changes true () fun _ => rfl
  calms_mergePendingCommit := changeIf_calms true () (fun _ => rfl) fun _ => rfl
  changes_clearPendingCommit := change_changes () (f := fun g => { g with pending := false })
    fun _ => rfl
  calms_clearPendingCommit := change_calms () (f := fun g => { g with pending := false })
    (fun _ => rfl) fun _ => rfl
  changes_delete fault s := by
    cases fault with
    | some e => trivial
    | none =>
      refine ⟨rfl, fun other hother => ?_⟩
      show ((Function.update s.world.groups s.self.id none) other).filter _ = _
      rw [Function.update_of_ne hother]
  calms_delete fault s := by
    cases fault with
    | some e => trivial
    | none =>
      intro g hg
      simp [plainCommits] at hg
  changes_clearPendingProposals := change_changes () (f := fun g => { g with queue := [] })
    fun _ => rfl
  keepsIdle_clearPendingProposals fault s _ hidle := by
    cases fault with
    | some e => trivial
    | none => exact idle_write s.world (g := { s.self with queue := [] }) hidle
  addMembers _ _ := changeIf_changes false _ fun _ => rfl
  removeMembers _ _ := changeIf_changes false _ fun _ => rfl
  buildReAdd _ _ _ fault s := by
    cases fault with
    | some e => trivial
    | none => exact ⟨rfl, fun _ _ => rfl⟩
  stageCommit _ := changeIf_changes false _ fun _ => rfl
  selfUpdate _ := changeIf_changes false _ fun _ => rfl
  storeSigner _ fault db := by
    cases fault with
    | some e => trivial
    | none => exact rfl
  newWithGroupId _ groupId _ credential fault db := writeNew_othersKept _ fault db
  intoGroup keyPackage fault db := by
    cases fault with
    | some e => trivial
    | none => exact ⟨othersKept_write db (welcomed keyPackage), rfl⟩

/-! ## Tables -/

namespace Plain

/-- Ids of groups have one byte. -/
def groupByte (groupId : String) : UInt8 := groupId.toUTF8.data.toList.headD 0

def groupRow (byte : UInt8) : Storage.GroupDataRow where
  providerVersion := Storage.storageProviderVersion
  groupId := [byte]
  dataType := .groupState
  groupData := []

/-- The bytes whose group is stored. -/
def groupBytes (db : PlainDb) : List UInt8 :=
  ((List.range 256).map UInt8.ofNat).filter fun byte =>
    (db.groups (String.singleton (Char.ofNat byte.toNat))).isSome

/-- The group has a row. -/
def hasRow (tables : Database) (groupId : String) : Bool :=
  tables.groupData.rows.any fun row =>
    row.providerVersion = Storage.storageProviderVersion ∧ row.groupId = [groupByte groupId]

theorem hasRow_withoutGroup (tables : Database) (groupId : String) :
    hasRow (withoutGroup [groupByte groupId] tables) groupId = false := by
  rw [hasRow, List.any_eq_false]
  intro row hrow
  simpa using not_of_mem_filter hrow

end Plain

/-- One row for every group, without which it is not there. -/
def plainTables : KeyStore plainCommits.toOpenMls Storage.byteCodec where
  tables db :=
    { Database.empty with
      groupData := (groupBytes db).foldl (fun rows byte => rows.insertOrReplace (groupRow byte))
        .empty }
  withTables tables db :=
    { db with groups := fun id => if hasRow tables id then db.groups id else none }
  groupId := groupByte

theorem plainTables_groupsAreRows : plainTables.GroupsAreRows := by
  intro db id bytes hid other g hg
  obtain rfl := Except.ok.inj hid
  obtain ⟨hgroup, hother⟩ := Option.filter_eq_some_iff.mp hg
  obtain ⟨hrow, hgroup⟩ := Option.ite_none_right_eq_some.mp hgroup
  refine ⟨?_, Option.filter_eq_some_iff.mpr ⟨hgroup, hother⟩⟩
  rintro rfl
  exact Bool.eq_false_iff.mp (hasRow_withoutGroup _ other) hrow

/-! ## Runs -/

namespace Plain

/-- One call after the other, without failures. -/
def runCalls (calls : List (Call plainCommits)) : Session plainCommits.toOpenMls :=
  calls.foldl (fun s c => final ((c.run .calm plainTables fun _ => false).run s)) emptySession

theorem recorded_of_calm (s : Session plainCommits.toOpenMls) (c : Call plainCommits) :
    c.Recorded .calm s := by
  cases c with
  | createGroup => exact fun _ _ _ => rfl
  | removeMembers => exact fun _ _ _ => rfl
  | readd => exact fun _ _ _ => rfl
  | updateLeafNode => exact fun _ _ _ => rfl
  | addMembers groupId keyPackages =>
    intro _ t _
    have hwritten : wp (recordUpdate .calm groupId) t (fun _ _ => True) fun _ _ => False := by
      rw [recordUpdate, wp_bind, currentPendingOperation, wp_bind, wp_attempt]
      refine wp_useStatuses (fun _ he => by cases he) fun _ => wp_ite (fun _ => ?_) fun _ => trivial
      exact wp_useStatuses (fun _ he => by cases he) fun _ => trivial
    obtain ⟨_, _, hrun, -⟩ := exists_run_of_wp hwritten
    rw [hrun]
    rfl
  | _ => trivial

/-- What a run of calls reaches. -/
theorem reached_runCalls {P : Session plainCommits.toOpenMls → Call plainCommits → Prop}
    (calls : List (Call plainCommits))
    (hP : ∀ front c, front ++ [c] <+: calls → P (runCalls front) c) :
    Reached .calm plainTables (fun _ => false) P emptySession (runCalls calls) := by
  induction calls using List.reverseRecOn with
  | nil => exact .start
  | append_singleton front c ih =>
    rw [runCalls, List.foldl_append]
    refine .call c (ih fun front' c' hbegins => hP front' c' ?_) (recorded_of_calm _ c)
      (hP front c (List.prefix_refl _))
    exact hbegins.trans (List.prefix_append _ _)

theorem tracked_emptySession : Tracked emptySession := fun _ _ _ hg => nomatch hg

theorem not_tracked_of {s : Session plainCommits.toOpenMls} (groupId : String)
    (hnone : Unrecorded groupId s.beside)
    (hpending : (plainCommits.stored s.store groupId).map plainCommits.hasPendingCommit =
      some true) : ¬Tracked s := by
  intro h
  obtain ⟨g, hg, hcommit⟩ := Option.map_eq_some_iff.mp hpending
  rw [h groupId hnone g hg] at hcommit
  cases hcommit

/-- A group of one member, with nothing recorded. -/
def settled : List (Call plainCommits) :=
  [.createGroup "ann/1" "g" (.ok ()) none, .clearPendingCommit "g"]

/-- The leaf is updated, then the proposals are cleared. -/
def clearedProposals : List (Call plainCommits) :=
  settled ++ [.updateLeafNode "g", .clearPendingProposals "g"]

/-- A proposal of another client is received. -/
def receivedProposal : List (Call plainCommits) :=
  settled ++ [.processOperationMessage "g" [2, 0, 9, 0]]

/-- The leaf is updated, and its commit is merged. -/
def mergedUpdate : List (Call plainCommits) :=
  settled ++ [.updateLeafNode "g", .mergePendingCommit "g"]

end Plain

open Plain in
/-- **A commit is pending and nothing is recorded**, after proposals were cleared and after a
proposal was committed to. -/
theorem not_tracked : Tracked emptySession ∧
    (∃ s, Reached .calm plainTables (fun _ => false) (fun _ _ => True) emptySession s ∧
      s = runCalls clearedProposals ∧ ¬Tracked s) ∧
    ∃ s, Reached .calm plainTables (fun _ => false) (fun _ _ => True) emptySession s ∧
      s = runCalls receivedProposal ∧ ¬Tracked s := by
  refine ⟨tracked_emptySession, ⟨_, reached_runCalls clearedProposals fun _ _ _ => trivial, rfl, ?_⟩,
    ⟨_, reached_runCalls receivedProposal fun _ _ _ => trivial, rfl, ?_⟩⟩
  · exact not_tracked_of "g" (by decide +kernel) (by decide +kernel)
  · exact not_tracked_of "g" (by decide +kernel) (by decide +kernel)

open Plain in
theorem tracked_mergedUpdate : Tracked (runCalls mergedUpdate) := by
  refine tracked_of_reached plainCommits plainCommits_storesGroups plainCommits_keepsCommits plainTables
    plainTables_groupsAreRows (fun _ => false) .calm (fun _ => rfl) tracked_emptySession
    (reached_runCalls mergedUpdate fun front c hbegins => ?_)
  have hmem : c ∈ mergedUpdate := hbegins.subset (List.mem_append_right _ List.mem_cons_self)
  simp only [mergedUpdate, settled, List.cons_append, List.nil_append, List.mem_cons,
    List.not_mem_nil, or_false] at hmem
  rcases hmem with rfl | rfl | rfl | rfl <;> trivial

end KChat.Mls
