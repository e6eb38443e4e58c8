import KChat.Mls.Batch

/-!
# Groups without cryptography

An `OpenMls` that keeps of MLS what the batches look at: epochs, the queue of proposals, the pending
commit, key packages, and the past epochs whose message secrets are gone. Messages are short byte
strings, and a failure of the store hits a method when it has changed the group in memory.

* `plain`; **`plain_storesGroups`**.
* `Plain.groupAt`, `Plain.sessionAt`, `Plain.commitAt`, `Plain.batch`: a store with one group, and
  batches for it.
-/

namespace KChat.Mls

open Lib OpenMls

structure PlainGroup where
  id : String
  epoch : ℕ
  members : List String
  own : String
  queue : List ℕ
  pending : Bool
  /-- the members the pending commit leads to -/
  next : List String := []
  deriving DecidableEq, Repr

structure PlainDb where
  groups : String → Option PlainGroup
  /-- past epochs without message secrets -/
  missing : List ℕ
  keyPackages : List ℕ

structure PlainProposal where
  reference : ℕ
  kind : Proposal
  sender : ℕ

inductive PlainMessage
  | commit (epoch : ℕ) (references : List ℕ)
  | proposal (epoch : ℕ) (proposal : PlainProposal)
  | welcome (keyPackage : ℕ)

namespace Plain

def write (db : PlainDb) (g : PlainGroup) : PlainDb :=
  { db with groups := Function.update db.groups g.id (some g) }

def deserialize : Bytes → Except String PlainMessage
  | [0, epoch] => .ok (.commit epoch.toNat [])
  | [1, epoch, reference] => .ok (.commit epoch.toNat [reference.toNat])
  | [2, epoch, reference, sender] => .ok (.proposal epoch.toNat
      { reference := reference.toNat, kind := .remove, sender := sender.toNat })
  | [3, keyPackage] => .ok (.welcome keyPackage.toNat)
  | _ => .error "EndOfStream"

/-- A group accepts what was sent in its own epoch and refers to proposals in its queue. -/
def judge (g : PlainGroup) : PlainMessage → Except String (ProcessedMessage Unit PlainProposal)
  | .commit epoch references =>
    if epoch ≠ g.epoch then .error "Wrong Epoch"
    else if references ⊆ g.queue then
      .ok { groupId := g.id, epoch := epoch, content := .stagedCommitMessage () }
    else .error "The proposal could not be found."
  | .proposal epoch proposal =>
    if epoch ≠ g.epoch then .error "Wrong Epoch"
    else .ok { groupId := g.id, epoch := epoch, content := .proposalMessage proposal }
  | .welcome _ => .error "Wrong wire format"

def nextEpoch (g : PlainGroup) : PlainGroup :=
  { g with epoch := g.epoch + 1, queue := [], pending := false }

/-- The group is changed in memory, then it is written. -/
def change {α : Type} (a : α) (f : PlainGroup → PlainGroup) (fault : Option String) :
    EStateM String (Owning PlainGroup PlainDb) α := fun s =>
  match fault with
  | some e => .error e ⟨f s.self, s.world⟩
  | none => .ok a ⟨f s.self, write s.world (f s.self)⟩

/-- A change that a group refuses unless a commit is pending, or unless none is. -/
def changeIf {α : Type} (pending : Bool) (a : α) (f : PlainGroup → PlainGroup)
    (fault : Option String) : EStateM String (Owning PlainGroup PlainDb) α := fun s =>
  if s.self.pending = pending then change a f fault s else .error "A commit is pending, or none." s

/-- The group that the holder of a key package is welcomed to. -/
def welcomed (keyPackage : ℕ) : PlainGroup where
  id := "g"
  epoch := keyPackage
  members := ["ann/1", "bob/2"]
  own := "ann/1"
  queue := []
  pending := false

end Plain

open Plain in
/-- **Groups without cryptography.** -/
@[reducible] def plain : OpenMls where
  Db := PlainDb
  Group := PlainGroup
  StagedCommit := Unit
  QueuedProposal := PlainProposal
  Credential := String
  LeafNode := String
  MessageIn := PlainMessage
  MessageOut := Unit
  ProtocolMessage := PlainMessage
  Welcome := ℕ
  StagedWelcome := ℕ
  JoinConfig := Unit
  Signer := Unit
  stored db id := (db.groups id).filter fun g => g.id == id
  groupId := PlainGroup.id
  epoch := PlainGroup.epoch
  treeHash _ := []
  ownLeaf g := some g.own
  credential := id
  members := PlainGroup.members
  member g i := g.members[i]?
  identity := some
  proposal := PlainProposal.kind
  sender p := some p.sender
  deserialize := deserialize
  serialize _ := .ok []
  intoProtocolMessage m :=
    match m with
    | .welcome _ => .error "Wrong wire format"
    | m => .ok m
  messageEpoch m :=
    match m with
    | .commit epoch _ => epoch
    | .proposal epoch _ => epoch
    | .welcome _ => 0
  extractWelcome m :=
    match m with
    | .welcome keyPackage => some keyPackage
    | _ => none
  loadOptimize fault db id epochs :=
    match fault with
    | some e => .error (.other e)
    | none =>
      match (db.groups id).filter fun g => g.id == id with
      | none => .ok none
      | some g =>
        if epochs.any fun epoch => db.missing.contains epoch then
          .error (.other "Missing past epoch MessageSecrets")
        else .ok (some g)
  load fault db id :=
    match fault with
    | some e => .error e
    | none => .ok ((db.groups id).filter fun g => g.id == id)
  readSignatureKeyPair fault _ _ := if fault.isSome then none else some ()
  processMessage m fault := fun s =>
    match fault with
    | some e => .error e s
    | none =>
      match judge s.self m with
      | .ok r => .ok r s
      | .error e => .error e s
  mergeStagedCommit _ := change () nextEpoch
  storePendingProposal p := change () fun g => { g with queue := g.queue ++ [p.reference] }
  commitToPendingProposals _ := changeIf false ((), none) fun g => { g with pending := true }
  mergePendingCommit := changeIf true () nextEpoch
  clearPendingCommit := change () fun g => { g with pending := false }
  delete fault := fun s =>
    match fault with
    | some e => .error e s
    | none =>
      .ok () ⟨s.self, { s.world with groups := Function.update s.world.groups s.self.id none }⟩
  stageWelcome _ keyPackage fault := fun db =>
    match fault with
    | some e => .error e db
    | none =>
      if keyPackage ∈ db.keyPackages then
        .ok keyPackage { db with keyPackages := db.keyPackages.erase keyPackage }
      else .error "No matching key package was found in the key store." db
  intoGroup keyPackage fault := fun db =>
    match fault with
    | some e => .error e db
    | none => .ok (welcomed keyPackage) (write db (welcomed keyPackage))
  customProposal _ := none

instance : DecidableEq plain.Group := inferInstanceAs (DecidableEq PlainGroup)

namespace Plain

theorem stored_write_eq (db : PlainDb) (g : PlainGroup) : plain.stored (write db g) =
    Function.update (β := fun _ => Option plain.Group) (plain.stored db) g.id (some g) := by
  funext id
  by_cases h : id = g.id
  · subst h
    simp [plain, write]
  · simp [plain, write, Function.update_of_ne h]

theorem stored_write (db : PlainDb) (g : PlainGroup) : plain.stored (write db g) g.id = some g := by
  rw [stored_write_eq]
  exact Function.update_self _ _ _

theorem change_writes {α : Type} (a : α) {f : PlainGroup → PlainGroup} (hf : ∀ g, (f g).id = g.id) :
    Writes (M := plain) (change a f) where
  groupId fault s := by
    cases fault with
    | some e => exact hf s.self
    | none => exact hf s.self
  stored fault s _ := by
    cases fault with
    | some e => trivial
    | none => exact stored_write _ _

theorem changeIf_of_eq {α : Type} {pending : Bool} {s : Owning PlainGroup PlainDb}
    (h : s.self.pending = pending) (a : α) (f : PlainGroup → PlainGroup) (fault : Option String) :
    (changeIf pending a f fault).run s = (change a f fault).run s := if_pos h

theorem changeIf_of_ne {α : Type} {pending : Bool} {s : Owning PlainGroup PlainDb}
    (h : s.self.pending ≠ pending) (a : α) (f : PlainGroup → PlainGroup) (fault : Option String) :
    (changeIf pending a f fault).run s = .error "A commit is pending, or none." s := if_neg h

theorem changeIf_writes {α : Type} (pending : Bool) (a : α) {f : PlainGroup → PlainGroup}
    (hf : ∀ g, (f g).id = g.id) : Writes (M := plain) (changeIf pending a f) where
  groupId fault s := by
    by_cases h : PlainGroup.pending s.self = pending
    · have := congrArg (fun r => (final r).self.id) (changeIf_of_eq h a f fault)
      exact this.trans ((change_writes a hf).groupId fault s)
    · exact congrArg (fun r => (final r).self.id) (changeIf_of_ne h a f fault)
  stored fault s hs := by
    by_cases h : PlainGroup.pending s.self = pending
    · cases fault with
      | some e => exact (wp_of_error (changeIf_of_eq h a f (some e))).mpr trivial
      | none => exact (wp_of_ok (changeIf_of_eq h a f none)).mpr (stored_write _ _)
    · exact (wp_of_error (changeIf_of_ne h a f fault)).mpr trivial

theorem loadOptimize_eq_ok {fault : Option String} {db : PlainDb} {id : String} {epochs : List ℕ}
    {g : PlainGroup} (h : plain.loadOptimize fault db id epochs = .ok (some g)) :
    fault = none ∧ plain.stored db id = some g ∧ ∀ epoch ∈ epochs, epoch ∉ db.missing := by
  cases fault with
  | some e => cases h
  | none =>
    refine ⟨rfl, ?_⟩
    simp only [plain] at h ⊢
    split at h
    · cases h
    · rename_i g' hg
      split_ifs at h with hmissing
      cases h
      refine ⟨hg, fun epoch hepoch hmem => hmissing ?_⟩
      rw [List.any_eq_true]
      exact ⟨epoch, hepoch, List.contains_iff_mem.mpr hmem⟩

end Plain

open Plain in
theorem plain_storesGroups : plain.StoresGroups where
  groupId h := by
    obtain ⟨-, hid⟩ := Option.filter_eq_some_iff.mp h
    exact beq_iff_eq.mp hid
  loadOptimize h := (loadOptimize_eq_ok h).2.1
  load {fault} _ _ _ h := by
    cases fault with
    | some e => cases h
    | none => exact Except.ok.inj h
  processMessage m fault s := by
    cases fault with
    | some e => exact ⟨rfl, rfl⟩
    | none =>
      simp only [plain, EStateM.run]
      split <;> exact ⟨rfl, rfl⟩
  mergeStagedCommit _ := change_writes () fun _ => rfl
  storePendingProposal p := change_writes ()
    (f := fun g => { g with queue := g.queue ++ [p.reference] }) fun _ => rfl
  commitToPendingProposals _ := changeIf_writes false _ fun _ => rfl
  mergePendingCommit := changeIf_writes true () fun _ => rfl
  clearPendingCommit := change_writes () (f := fun g => { g with pending := false }) fun _ => rfl
  stageWelcome _ keyPackage fault db := by
    cases fault with
    | some e => rfl
    | none =>
      simp only [plain, EStateM.run]
      split <;> rfl
  intoGroup keyPackage fault db := by
    cases fault with
    | some e => trivial
    | none => exact stored_write db _

namespace Plain

/-- The group of two members at an epoch. -/
def groupAt (epoch : ℕ) : plain.Group := welcomed epoch

/-- A session whose store holds this group. -/
def sessionAt (epoch : ℕ) (missing keyPackages : List ℕ) : Session plain where
  store := write { groups := fun _ => none, missing := missing, keyPackages := keyPackages }
    (welcomed epoch)
  beside := []
  time := 0
  seen := 0

/-- A commit of no proposals. -/
def commitAt (epoch : ℕ) : MlsMessage where
  blob := [0, UInt8.ofNat epoch]
  epoch := epoch
  sender := "2"
  messageType := .commit

/-- A batch of the group. -/
def batch (messages : List MlsMessage) : AllMessagesOfGroupArgs where
  groupId := "g"
  messages := messages
  pendingEpoch := 0
  pendingTreeHash := []

end Plain

end KChat.Mls
