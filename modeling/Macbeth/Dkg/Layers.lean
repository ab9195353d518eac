import Macbeth.Dkg.Encryption

/-!
# What the authentication layers do

Each operation of the three layers succeeds under a condition and then changes the layer in one
way.  The rounds of the key generation are proved about with these facts only.
-/

namespace Macbeth.Dkg

open Outcome List FinMap AList Outcome

/-! ## Maps of members -/

variable {ν : Type}

theorem mem_ascending {m : FinMap Identifier ν} {id : Identifier} {v : ν} :
    (id, v) ∈ ascending m ↔ m.lookup id = some v := by
  unfold ascending
  rw [mem_insertionSort, mem_map]
  constructor
  · intro ⟨e, he, heq⟩
    obtain ⟨rfl, rfl⟩ := Prod.mk.inj heq
    exact mem_lookup_iff.mpr he
  · intro h
    exact ⟨⟨id, v⟩, mem_lookup_iff.mp h, rfl⟩

/-- A map of members that is as large as the federation has all of them. -/
theorem mem_of_length_eq {ν' : Type} {m : FinMap Identifier ν} {m' : FinMap Identifier ν'}
    (hsub : ∀ id ∈ m, id ∈ m') (hlength : m.keys.length = m'.keys.length) {id : Identifier}
    (h : id ∈ m') : id ∈ m := by
  have hsubperm : m.keys.Subperm m'.keys :=
    subperm_of_subset m.nodupKeys fun k hk => hsub k hk
  exact (hsubperm.perm_of_length_le hlength.ge).mem_iff.mpr h

@[simp] theorem mem_singleton {id id' : Identifier} {v : ν} :
    id ∈ (AList.singleton id' v : FinMap Identifier ν) ↔ id = id' := by
  rw [AList.mem_keys, AList.keys_singleton, List.mem_singleton]

section
variable {lib : Lib} {initiator : Identifier} {signature : Signature}

/-! ## Round one -/

variable {nonce : BitVec 64} {m : DkgHandshakeManager}

theorem handshake_new_eq_ok {context : List UInt8} {myFrostId : Identifier}
    {myStaticSec : SecretKey} {members : FinMap Identifier PublicKey} {rand : Rand}
    (h : DkgHandshakeManager.new lib context nonce myFrostId myStaticSec members rand = .ok m) :
    m = {
      setup := ⟨context, nonce⟩
      myFrostId
      myStaticSec
      myEphSec := lib.ephemeralSecret rand
      myEphPub := lib.publicKey (lib.ephemeralSecret rand)
      fedMembers := members
      ephKeys := (∅ : FinMap Identifier PublicKey).insert myFrostId
        (lib.publicKey (lib.ephemeralSecret rand))
      round1Commits := ∅ } := by
  unfold DkgHandshakeManager.new at h
  split at h
  · cases h
  · exact (Except.ok.inj h).symm

theorem validateRound1_eq_ok {m' : DkgHandshakeManager} {ephPub : PublicKey}
    {package : Round1Package} (h : m.validateRound1 initiator ephPub signature package = .ok m') :
    m.fedMembers.lookup initiator = some signature.key ∧
      signature.digest = .round1 (m.commit initiator ephPub package) ∧
      m' = { m with
        ephKeys := m.ephKeys.insert initiator ephPub
        round1Commits := m.round1Commits.insert initiator (m.commit initiator ephPub package) } := by
  unfold DkgHandshakeManager.validateRound1 at h
  split at h
  · cases h
  · next fedStatic hlookup =>
    dsimp only at h
    split at h
    · next hverify =>
      have hsignature : signature = ⟨fedStatic, .round1 (m.commit initiator ephPub package)⟩ := by
        simpa [verify] using hverify
      rw [hsignature]
      exact ⟨hlookup, rfl, (Except.ok.inj h).symm⟩
    · cases h

variable {left : DkgHandshakeManager}

theorem handshake_finalize_eq_ok {channels : SecureChannelManager}
    (h : m.finalize lib = ok (channels, left)) :
    m.round1Commits.keys.length = m.fedMembers.keys.length ∧
      channels.transcript = ⟨m.setup, (ascending m.round1Commits).map Prod.snd⟩ ∧
      channels.myFrostId = m.myFrostId ∧ channels.fedMembers = m.fedMembers ∧
      left = { m with round1Commits := ∅, fedMembers := ∅ } := by
  obtain ⟨_, hlength, h⟩ := bind_eq_ok.mp h
  obtain ⟨entries, -, h⟩ := bind_eq_ok.mp h
  obtain ⟨rfl, rfl⟩ := Prod.mk.inj (ok.inj h)
  exact ⟨ensure_eq_ok.mp hlength, rfl, rfl, rfl, rfl⟩

variable {auth : SecureChannelManager}

theorem round2Checks_finalize (h : m.finalize lib = .ok (auth, left)) : auth.round2Checks = ∅ := by
  obtain ⟨_, -, h⟩ := bind_eq_ok.mp h
  obtain ⟨channels, -, h⟩ := bind_eq_ok.mp h
  obtain ⟨rfl, -⟩ := Prod.mk.inj (ok.inj h)
  rfl

/-- A channel can be set up to a member whose ephemeral key is there. -/
theorem exists_channel {transcript : Transcript} {fed : Identifier × PublicKey}
    (h : fed.1 ∈ m.ephKeys) : ∃ entry, m.channel lib transcript fed = .ok entry := by
  obtain ⟨eph, heph⟩ := mem_iff_lookup.mp h
  simp only [DkgHandshakeManager.channel, heph, expect, ok_bind]
  split <;> exact ⟨_, rfl⟩

theorem fst_of_channel {transcript : Transcript} {fed : Identifier × PublicKey}
    {entry : Identifier × SymmetricKeyEntry} (h : m.channel lib transcript fed = .ok entry) :
    entry.1 = fed.1 := by
  obtain ⟨eph, -, h⟩ := bind_eq_ok.mp h
  dsimp only at h
  split at h <;> exact (congrArg Prod.fst (ok.inj h)).symm

theorem mem_symmetricKeys (h : m.finalize lib = .ok (auth, left)) {id : Identifier}
    (hid : id ∈ m.fedMembers) (hne : id ≠ m.myFrostId) : id ∈ auth.symmetricKeys := by
  obtain ⟨_, -, h⟩ := bind_eq_ok.mp h
  obtain ⟨channels, hchannels, h⟩ := bind_eq_ok.mp h
  obtain ⟨rfl, -⟩ := Prod.mk.inj (ok.inj h)
  obtain ⟨key, hkey⟩ := mem_iff_lookup.mp hid
  obtain ⟨entry, hentry, hchannel⟩ := (exists_of_mapM_eq_ok hchannels).2 (id, key)
    (mem_filter.mpr ⟨mem_ascending.mpr hkey, by simpa using hne⟩)
  obtain rfl : entry.1 = id := fst_of_channel hchannel
  exact mem_iff_lookup.mpr (exists_lookup_ofList hentry)

/-! ## Round two -/

theorem validateRound2_eq_ok {m m' : SecureChannelManager} {initiator : Identifier}
    {ciphertext : List UInt8} {package : Round2Package}
    (h : m.validateRound2 lib initiator nonce ciphertext = .ok (package, m')) :
    m' = { m with round2Checks := insert initiator m.round2Checks } := by
  unfold SecureChannelManager.validateRound2 at h
  split at h
  · cases h
  · split at h
    · cases h
    · split at h
      · cases h
      · exact (Prod.mk.inj (Except.ok.inj h)).2.symm

/-- A package can be encrypted for everyone to whom there is a channel. -/
theorem exists_commitRound2
    (hencrypt : ∀ key nonce package, (lib.encrypt key nonce package).isSome = true)
    {target : Identifier} (package : Round2Package) (h : target ∈ auth.symmetricKeys) :
    ∃ ciphertext nonce auth', auth.commitRound2 lib target package =
      .ok (ciphertext, nonce, auth') := by
  obtain ⟨entry, hentry⟩ := mem_iff_lookup.mp h
  obtain ⟨ciphertext, hciphertext⟩ :=
    Option.isSome_iff_exists.mp (hencrypt entry.sending entry.nonce package)
  simp only [SecureChannelManager.commitRound2, hentry, hciphertext]
  exact ⟨_, _, _, rfl⟩

/-- What an encrypted package leaves of the layer. -/
theorem eq_of_commitRound2 {auth' : SecureChannelManager} {target : Identifier}
    {package : Round2Package} {ciphertext : List UInt8}
    (h : auth.commitRound2 lib target package = .ok (ciphertext, nonce, auth')) :
    ∃ entry, auth.symmetricKeys.lookup target = some entry ∧ nonce = entry.nonce ∧
      lib.encrypt entry.sending entry.nonce package = some ciphertext ∧
      auth' = { auth with
        symmetricKeys := auth.symmetricKeys.insert target { entry with nonce := entry.nonce + 1 }
        round2Checks := insert auth.myFrostId auth.round2Checks } := by
  unfold SecureChannelManager.commitRound2 at h
  split at h
  · cases h
  · next entry hentry =>
    split at h
    · cases h
    · next hciphertext =>
      obtain ⟨rfl, hrest⟩ := Prod.mk.inj (Except.ok.inj h)
      obtain ⟨rfl, rfl⟩ := Prod.mk.inj hrest
      exact ⟨entry, hentry, rfl, hciphertext, rfl⟩

/-- Two managers of the same session. -/
structure SameSession (c c' : SecureChannelManager) : Prop where
  transcript : c'.transcript = c.transcript
  own : c'.myFrostId = c.myFrostId
  members : c'.fedMembers = c.fedMembers

theorem channels_finalize_eq_ok {m left : SecureChannelManager} {k : KeyVerificationManager}
    (h : m.finalize = .ok (k, left)) :
    k = ⟨m.transcript, m.myFrostId, m.myStaticSec, m.fedMembers, none, ∅⟩ := by
  unfold SecureChannelManager.finalize at h
  split at h
  · cases h
  · exact (Prod.mk.inj (Except.ok.inj h)).1.symm

/-! ## Round three -/

theorem validateRound3_eq_ok {m m' : KeyVerificationManager}
    (h : m.validateRound3 initiator signature = .ok m') :
    ∃ challenge, m.challenge = some challenge ∧
      m.fedMembers.lookup initiator = some signature.key ∧
      signature.digest = .round3 challenge ∧
      m' = { m with round3Commits := m.round3Commits.insert initiator signature } := by
  unfold KeyVerificationManager.validateRound3 at h
  split at h
  · cases h
  · next challenge hchallenge =>
    split at h
    · cases h
    · next fedStatic hlookup =>
      split at h
      · next hverify =>
        have hsignature : signature = ⟨fedStatic, .round3 challenge⟩ := by
          simpa [verify] using hverify
        rw [hsignature]
        exact ⟨challenge, hchallenge, hlookup, rfl, hsignature ▸ (Except.ok.inj h).symm⟩
      · cases h

end

end Macbeth.Dkg
