import KChat.Backup.Callbacks
import KChat.Backup.RoundTrip

/-!
# From a fresh key to the restored plaintext

* `sealBackupObjectV1_sealed`: what the foreign sink holds after an object was sealed is in the
  grammar; `openBackupObjectV1_grammar`: what is in the grammar is opened for the foreign sink.
* `HonestStream`: an honest source of ciphertext, its release included.
* `memoryStream`, `memoryStore`: two byte strings in memory.
* **`restore_of_backup`**: a device that has only the secret, the account id and what was stored
  restores every object.
-/

namespace KChat.Backup

open Lib BoundedDecoder

variable {σ τ δ κ μ : Type} {P : Primitives μ} {A : StreamAead} {frame : Bytes → Option Bytes}

/-! ## One object through the bindings -/

section object

variable {C : Compressor κ} {sha256 : Bytes → Bytes} {context : BackupObjectContextV1}
  {Holds : σ → Bytes → Bytes → Prop} {sink : SinkCallbacks σ}

/-- **A sealed object**: the sink has taken a byte string of the grammar, and the metadata are its
size and its hash. -/
theorem sealBackupObjectV1_sealed {source : BackupPlaintextSource σ} (hA : A.Inverts)
    (hC : C.Encodes frame BackupObjectWriterV1.level windowLogMax)
    (h : HonestCallbacks source sink Holds) (random : Option NoncePrefix) {s : σ}
    {plaintext : Bytes}
    (hs : Holds s plaintext []) :
    wp (sealBackupObjectV1 A C sha256 random context source sink) s
      (fun metadata s' => ∃ b rest, Holds s' rest b ∧ V1Grammar A frame context b plaintext ∧
        metadata.ciphertextSize = b.length ∧ metadata.ciphertextSha256 = sha256 b)
      fun _ _ => True := by
  rw [sealBackupObjectV1, wp_bind, wp_withAdapters, SinkAdapter, sealObjectV1_unguarded]
  have hserves : Serves (SourceAdapter source) (SinkAdapter.forward sink) (Unread Holds) :=
    (adapter_honest h).toServes
  have hsealed : wp (sealObjectV1 A C sha256 (SourceAdapter source) (SinkAdapter.forward sink)
      context random) { foreign := (s, false), delivered := [] } _ _ :=
    sealObjectV1_sealed hC hserves sha256 random ⟨rfl, [], hs⟩
  have htook := sealObjectV1_took h A context C sha256 random
    { foreign := (s, false), delivered := [] } ⟨rfl, plaintext, hs⟩
  refine wp_mono (wp_and hsealed htook) (fun descriptor w hw => ?_) fun _ _ _ => trivial
  obtain ⟨⟨noncePrefix, c, out, -, hwith, hout, hsize, hsha⟩, hflag, rest, hholds⟩ := hw
  have hbytes : w.bytes = out.flatten := by
    rw [World.bytes, hout]
    rfl
  rw [← hbytes] at hwith hsize hsha
  rw [hflag, if_neg Bool.false_ne_true]
  exact ⟨w.bytes, rest, hholds, sealedWith_grammar hA hC hwith, hsize, hsha⟩

/-- **An honest stream** also keeps its sink's bytes when it is released. -/
structure HonestStream (source : BackupCiphertextSource σ) (sink : SinkCallbacks σ)
    (Holds : σ → Bytes → Bytes → Prop) : Prop
    extends HonestCallbacks source.toSourceCallbacks sink Holds where
  releaseStream : ∀ {s rest got}, Holds s rest got →
    ∃ rest', Holds (final (source.releaseStream.run s)) rest' got

theorem openBackupObjectV1_grammar {source : BackupCiphertextSource σ} {R : RawDecoder δ}
    (hsound : R.Sound frame windowLogMax) (hdelim : SelfDelimiting frame)
    (hlive : R.Live frame windowLogMax) (h : HonestStream source sink Holds) {key : BackupMasterKey}
    {accountId : String} {backupId chunkId : Bytes}
    (hbackup : key.deriveBackupId P accountId = .ok backupId)
    (hcontext : key.createObjectContext P accountId backupId chunkId = .ok context)
    {b plaintext : Bytes} (hgram : V1Grammar A frame context b plaintext) {s : σ}
    (hs : Holds s b []) :
    wp (openBackupObjectV1 P A R key accountId chunkId source sink) s
      (fun _ s' => ∃ rest, Holds s' rest plaintext) fun _ _ => False := by
  rw [openBackupObjectV1, wp_releasing, hbackup, wp_bind]
  refine wp_ofResult (fun backupId' hbackup' => ?_) fun e he => by cases he
  cases hbackup'
  rw [wp_bind, hcontext]
  refine wp_ofResult (fun context' hcontext' => ?_) fun e he => by cases he
  cases hcontext'
  rw [wp_withAdapters, SinkAdapter, openObjectV1_unguarded]
  have hspec := openObjectV1_spec A context hsound hdelim hlive (adapter_honest h.toHonestCallbacks)
    (adapter_neverFails h.toHonestCallbacks) (w := { foreign := (s, false), delivered := [] })
    ⟨rfl, [], hs⟩
  have htook := openObjectV1_took h.toHonestCallbacks A context R
    { foreign := (s, false), delivered := [] } ⟨rfl, b, hs⟩
  refine wp_mono (wp_and hspec htook) (fun _ w hw => ?_) fun e w hw => hw.1 ⟨plaintext, hgram⟩
  obtain ⟨⟨p, hgram', hbytes⟩, hflag, rest, hholds⟩ := hw
  obtain rfl := V1Grammar.unique hgram' hgram
  rw [hflag, if_neg Bool.false_ne_true]
  have hgot : w.bytes = p := hbytes
  rw [hgot] at hholds
  exact h.releaseStream hholds

end object

/-! ## The whole way -/

/-- **A backup is restored** by a device that has the secret, or the exported key, the account id and
what was stored: the descriptor gives it the key, the key opens the descriptor, there is a context
for every chunk id, and every object that was sealed under it opens to its plaintext. -/
theorem restore_of_backup (P : Primitives μ) (hB : P.bip39.Lawful) (A : Aead) (hA : A.Inverts)
    (S : StreamAead) (hS : S.Inverts) (C : Compressor κ) (R : RawDecoder δ)
    (frame : Bytes → Option Bytes) (hC : C.Encodes frame BackupObjectWriterV1.level windowLogMax)
    (hsound : R.Sound frame windowLogMax) (hlive : R.Live frame windowLogMax)
    (hdelim : SelfDelimiting frame) (sha256 : Bytes → Bytes) {secret : BackupSecret}
    {bootstrap : BackupDescriptorBootstrap} {key : BackupMasterKey}
    (hkey : Generated P secret bootstrap key) {accountId : String} {nonce : FixedBytes nonceBytes}
    {descriptor : Bytes}
    (hdescriptor : key.sealDescriptor P A accountId bootstrap (some nonce) = .ok descriptor) :
    ∃ opened, importWith P secret descriptor = .ok key ∧
      importWith P (.raw key.exportRaw) descriptor = .ok key ∧
      key.openDescriptor P A accountId descriptor = .ok opened ∧
      opened.header.mode = key.mode ∧ key.deriveBackupId P accountId = .ok opened.backupId ∧
      ∀ chunkId : BackupChunkId, ∃ context,
        key.createObjectContext P accountId opened.backupId chunkId.val.val = .ok context ∧
        ∀ (σ : Type) (source : BackupPlaintextSource σ) (sink : BackupCiphertextSink σ)
          (Holds : σ → Bytes → Bytes → Prop) (s s' : σ) (random : Option NoncePrefix)
          (plaintext : Bytes) (metadata : BackupObjectMetadata),
          HonestCallbacks source sink Holds → Holds s plaintext [] →
          (sealBackupObjectV1 S C sha256 random context source sink).run s = .ok metadata s' →
          ∃ b rest, Holds s' rest b ∧ metadata.ciphertextSize = b.length ∧
            metadata.ciphertextSha256 = sha256 b ∧
            ∀ (τ : Type) (source' : BackupCiphertextSource τ) (sink' : BackupPlaintextSink τ)
              (Holds' : τ → Bytes → Bytes → Prop) (t : τ), HonestStream source' sink' Holds' →
              Holds' t b [] →
              ∃ t', (openBackupObjectV1 P S R key accountId chunkId.val.val source' sink').run t =
                .ok () t' ∧ ∃ rest', Holds' t' rest' plaintext := by
  obtain ⟨opened, hopened, hmode, hbackup⟩ := BackupMasterKey.openDescriptor_of_seal hA hdescriptor
  have hexported : Generated P (.raw key.exportRaw) bootstrap key :=
    .raw (importFromRaw_exportRaw key)
  refine ⟨opened, hkey.restored hB hdescriptor, hexported.restored hB hdescriptor, hopened, hmode,
    hbackup, fun chunkId => ?_⟩
  obtain ⟨context, hcontext⟩ := BackupMasterKey.createObjectContext_of_backupId hbackup chunkId
  refine ⟨context, hcontext, ?_⟩
  intro σ source sink Holds s s' random plaintext metadata h hs hseal
  obtain ⟨b, rest, hb, hgram, hsize, hsha⟩ :=
    (wp_of_ok hseal).mp (sealBackupObjectV1_sealed hS hC h random hs)
  refine ⟨b, rest, hb, hsize, hsha, ?_⟩
  intro τ source' sink' Holds' t h' ht
  obtain ⟨u, t', hrun, hgot⟩ := exists_run_of_wp
    (openBackupObjectV1_grammar hsound hdelim hlive h' hbackup hcontext hgram ht)
  exact ⟨t', hrun, hgot⟩

/-! ### Two byte strings in memory -/

/-- The source that serves the first byte string, at most `k` bytes at a time. -/
def memoryStream (k : ℕ) : BackupCiphertextSource (Bytes × Bytes) where
  readChunk capacity := do
    let s ← get
    set (s.1.drop (min capacity k), s.2)
    pure (s.1.take (min capacity k))
  isCancelled := pure false
  releaseStream := pure ()

def memoryStore : SinkCallbacks (Bytes × Bytes) where
  writeChunk chunk := modify fun s => (s.1, s.2 ++ chunk)

theorem memoryStream_honest {k : ℕ} (hk : 0 < k) :
    HonestStream (memoryStream k) memoryStore fun s rest got => s = (rest, got) where
  isCancelled h := ⟨_, rfl, h⟩
  readChunk := by
    rintro s rest got capacity rfl
    refine ⟨_, _, _, rfl, ?_, fun hc hnil => ?_, (List.take_append_drop _ _).symm, rfl⟩
    · exact (List.length_take_le _ _).trans (min_le_left _ _)
    · rcases List.take_eq_nil_iff.mp hnil with h | h
      · omega
      · exact h
  writeChunk := by
    rintro s rest got chunk rfl
    exact ⟨_, rfl, rfl⟩
  accepts _ _ := ⟨_, rfl⟩
  releaseStream h := ⟨_, h⟩

/-- Primitives that are easily computed, and know one account. -/
def plainPrimitives : Primitives Bytes where
  bip39 := spelledMnemonics
  hkdf secret info := ⟨((secret ++ info).reverse ++ List.replicate 32 0).take 32, by
    simp
    omega⟩
  argon2id _ _ _ password salt := some ⟨(password ++ salt ++ List.replicate 32 0).take 32, by
    simp
    omega⟩
  parseUuid account :=
    if account = "00112233-4455-6677-8899-aabbccddeeff" then some ⟨List.replicate 16 1, rfl⟩
    else none

def chunkOfSevens : BackupChunkId := ⟨⟨List.replicate 32 7, rfl⟩, by decide⟩

/-- A backup under a password: two bytes of plaintext at a time are sealed, one byte of ciphertext
at a time is opened. -/
theorem restore_of_backup_password : ∃ r descriptor backupId context metadata s' t',
    generatePassword plainPrimitives (fun n => some ⟨List.replicate n 5, by simp⟩) true [1, 2] =
      .ok r ∧
    r.key.sealDescriptor plainPrimitives (recordedAead fun _ _ _ => true)
      "00112233-4455-6677-8899-aabbccddeeff" (.password r.salt)
      (some ⟨List.replicate 24 0, rfl⟩) = .ok descriptor ∧
    importWith plainPrimitives (.password [1, 2]) descriptor = .ok r.key ∧
    importWith plainPrimitives (.raw r.key.exportRaw) descriptor = .ok r.key ∧
    r.key.deriveBackupId plainPrimitives "00112233-4455-6677-8899-aabbccddeeff" = .ok backupId ∧
    r.key.createObjectContext plainPrimitives "00112233-4455-6677-8899-aabbccddeeff" backupId
      (List.replicate 32 7) = .ok context ∧
    (sealBackupObjectV1 (taggedAead fun _ _ _ _ => true) storedCompressor
      (fun _ => List.replicate 32 0) (some default) context (memoryStream 2).toSourceCallbacks
      memoryStore).run ([7, 8, 9], []) = .ok metadata s' ∧
    (openBackupObjectV1 plainPrimitives (taggedAead fun _ _ _ _ => true) storedDecoder r.key
      "00112233-4455-6677-8899-aabbccddeeff" (List.replicate 32 7) (memoryStream 1)
      memoryStore).run (s'.2, []) = .ok () t' ∧ t'.2 = [7, 8, 9] := by
  obtain ⟨r, descriptor, backupId, context, hr, hdescriptor, hbackup, hcontext, hok⟩ :
      ∃ r descriptor backupId context,
      generatePassword plainPrimitives (fun n => some ⟨List.replicate n 5, by simp⟩) true [1, 2] =
        .ok r ∧
      r.key.sealDescriptor plainPrimitives (recordedAead fun _ _ _ => true)
        "00112233-4455-6677-8899-aabbccddeeff" (.password r.salt)
        (some ⟨List.replicate 24 0, rfl⟩) = .ok descriptor ∧
      r.key.deriveBackupId plainPrimitives "00112233-4455-6677-8899-aabbccddeeff" = .ok backupId ∧
      r.key.createObjectContext plainPrimitives "00112233-4455-6677-8899-aabbccddeeff" backupId
        (List.replicate 32 7) = .ok context ∧
      (outcome ((sealBackupObjectV1 (taggedAead fun _ _ _ _ => true) storedCompressor
        (fun _ => List.replicate 32 0) (some default) context (memoryStream 2).toSourceCallbacks
        memoryStore).run ([7, 8, 9], []))).isOk = true :=
    ⟨_, _, _, _, rfl, rfl, rfl, rfl, by decide +kernel⟩
  obtain ⟨metadata, s', hseal⟩ := exists_of_isOk hok
  obtain ⟨opened, hrestored, hexported, -, -, hopened, hchunks⟩ := restore_of_backup plainPrimitives
    spelledMnemonics_lawful _ recordedAead_inverts _ (taggedAead_inverts _) storedCompressor
    storedDecoder storedFrame (storedCompressor_encodes _ (by decide +kernel))
    (storedDecoder_sound _) (storedDecoder_live _) storedFrame_selfDelimiting
    (fun _ => List.replicate 32 0) (.password hr) hdescriptor
  obtain rfl : opened.backupId = backupId := Except.ok.inj (hopened.symm.trans hbackup)
  obtain ⟨context', hcontext', hobjects⟩ := hchunks chunkOfSevens
  obtain rfl : context' = context := Except.ok.inj (hcontext'.symm.trans hcontext)
  obtain ⟨b, rest, hb, -, -, hopens⟩ := hobjects _ _ _ _ _ _ _ [7, 8, 9] _
    (memoryStream_honest two_pos).toHonestCallbacks rfl hseal
  obtain ⟨t', hopen, rest', ht'⟩ := hopens _ _ _ _ (b, []) (memoryStream_honest one_pos) rfl
  refine ⟨r, descriptor, _, context', metadata, s', t', hr, hdescriptor, hrestored, hexported,
    hbackup, hcontext, hseal, ?_, by rw [ht']⟩
  rw [hb]
  exact hopen

end KChat.Backup
