import Macbeth.Dkg.Layers
import Macbeth.Dkg.Member

/-!
# The packages of a member and its authentication layer

A member keeps the packages of a round, and its authentication layer keeps who has committed.
Both are to name the same members (`Coupled`), so that a round that is complete for the member
is complete for the layer (`Suffices`).

Every way of handling a message keeps the two together, and so does every transition but one:
when FROST's third part fails, the packages of round two are gone and the layer still has them.
-/

namespace Macbeth.Dkg

open Handler Outcome DkgStateMachine List Option FinMap AList

/-! ## The coupling -/

section
variable (lib : Lib) (n : DkgStateMachine)

/-- The members with a package, and the own identifier, are those the layer has. -/
def Coupled : Prop :=
  match n.state with
  | .roundOne r =>
    (∀ id, id ∈ r.auth.round1Commits ↔ id = n.myFrostId ∨ id ∈ r.inRound1Packages) ∧
      ∀ id, id ∈ r.auth.ephKeys ↔ id = n.myFrostId ∨ id ∈ r.inRound1Packages
  | .roundTwo r => ∀ id, id ∈ r.auth.round2Checks ↔ id = n.myFrostId ∨ id ∈ r.inRound2Packages
  | .roundThree r => ∀ id, id ∈ r.auth.round3Commits ↔ id = n.myFrostId ∨ id ∈ r.inRound3Packages
  | _ => True

/-- When the test of a transition passes, the layer is not short of commitments. -/
def Suffices : Prop :=
  match n.state with
  | .roundOne r => StartsStage2 n r → r.auth.finalize lib ≠ .err .insufficientSamples
  | .roundTwo r => r.inRound2Packages.keys.length = n.members.keys.length - 1 →
    r.outRound2Packages.keys = [] → r.auth.finalize ≠ .error .insufficientSamples
  | .roundThree r => r.inRound3Packages.keys.length = n.members.keys.length - 1 →
    r.outRound3Packages.keys = [] → r.auth.finalize ≠ .error .insufficientSamples
  | _ => True

/-- The coupling holds between two calls, and when a message was handled, before the
transition that may follow. -/
def StaysCoupled : Prop :=
  Coupled n ∧ Suffices lib n ∧
    ∀ payload rand n₁, handle lib payload rand n = (.ok (), n₁) → Coupled n₁ ∧ Suffices lib n₁

end

/-! ## The invariant -/

structure OneFits (n : DkgStateMachine) (r : RoundOne) : Prop where
  own : r.auth.myFrostId = n.myFrostId
  members : r.auth.fedMembers = n.members
  mine : n.myFrostId ∉ r.inRound1Packages
  known : ∀ id ∈ r.inRound1Packages, id ∈ n.members
  commits : ∀ id, id ∈ r.auth.round1Commits ↔ id = n.myFrostId ∨ id ∈ r.inRound1Packages
  ephKeys : ∀ id, id ∈ r.auth.ephKeys ↔ id = n.myFrostId ∨ id ∈ r.inRound1Packages

structure TwoFits (n : DkgStateMachine) (r : RoundTwo) : Prop where
  own : r.auth.myFrostId = n.myFrostId
  members : r.auth.fedMembers = n.members
  mine : n.myFrostId ∉ r.inRound2Packages
  checks : ∀ id, id ∈ r.auth.round2Checks ↔ id = n.myFrostId ∨ id ∈ r.inRound2Packages

structure ThreeFits (n : DkgStateMachine) (r : RoundThree) : Prop where
  members : r.auth.fedMembers = n.members
  mine : n.myFrostId ∉ r.inRound3Packages
  commits : ∀ id, id ∈ r.auth.round3Commits ↔ id = n.myFrostId ∨ id ∈ r.inRound3Packages

def StateFits (n : DkgStateMachine) : StageState → Prop
  | .roundOne r => OneFits n r
  | .roundTwo r => TwoFits n r
  | .roundThree r => ThreeFits n r
  | _ => True

/-- A member of a federation of at least two, with a layer that fits its packages. -/
structure Fits (n : DkgStateMachine) : Prop where
  member : n.myFrostId ∈ n.members
  two : 2 ≤ n.members.keys.length
  state : StateFits n n.state

section
variable {lib : Lib} {n n' : DkgStateMachine}
variable {r : RoundOne}

theorem Fits.one (h : Fits n) (hr : n.state = .roundOne r) : OneFits n r := by
  simpa [StateFits, hr] using h.state

theorem Fits.twoFits (h : Fits n) {r : RoundTwo} (hr : n.state = .roundTwo r) : TwoFits n r := by
  simpa [StateFits, hr] using h.state

theorem Fits.three (h : Fits n) {r : RoundThree} (hr : n.state = .roundThree r) :
    ThreeFits n r := by
  simpa [StateFits, hr] using h.state

theorem Fits.coupled (h : Fits n) : Coupled n := by
  unfold Coupled
  split
  · next r hr => exact ⟨(h.one hr).commits, (h.one hr).ephKeys⟩
  · next r hr => exact (h.twoFits hr).checks
  · next r hr => exact (h.three hr).commits
  · trivial

/-! ## Counting -/

/-- A set with one element more than the keys of a map. -/
theorem card_of_mem_iff {ν : Type} {s : Finset Identifier} {m : FinMap Identifier ν}
    {me : Identifier} (h : ∀ id, id ∈ s ↔ id = me ∨ id ∈ m) (hme : me ∉ m) :
    s.card = m.keys.length + 1 := by
  have hs : s = insert me m.keys.toFinset := by
    ext id
    simp [h, AList.mem_keys]
  rw [hs, Finset.card_insert_of_notMem (by simpa [← AList.mem_keys] using hme),
    toFinset_card_of_nodup m.keys_nodup]

theorem length_keys_of_mem_iff {ν ξ : Type} {m' : FinMap Identifier ξ} {m : FinMap Identifier ν}
    {me : Identifier} (h : ∀ id, id ∈ m' ↔ id = me ∨ id ∈ m) (hme : me ∉ m) :
    m'.keys.length = m.keys.length + 1 := by
  rw [← card_of_mem_iff (s := m'.keys.toFinset) (by simpa [← AList.mem_keys] using h) hme,
    toFinset_card_of_nodup m'.keys_nodup]

/-! ## The ends of the rounds -/

/-- In a complete round one everyone has committed. -/
theorem Fits.mem_ephKeys (h : Fits n) (hr : n.state = .roundOne r) (hstarts : StartsStage2 n r)
    {id : Identifier} (hid : id ∈ n.members) : id ∈ r.auth.ephKeys := by
  have hone := h.one hr
  have hlength : r.auth.ephKeys.keys.length = n.members.keys.length := by
    have := length_keys_of_mem_iff hone.ephKeys hone.mine
    have := h.two
    have := hstarts.1
    omega
  refine mem_of_length_eq (fun k hk => ?_) hlength hid
  rcases (hone.ephKeys k).mp hk with rfl | hk
  · exact h.member
  · exact hone.known k hk

/-- A complete round one can be finalized. -/
theorem Fits.finalize_one (h : Fits n) (hr : n.state = .roundOne r) (hstarts : StartsStage2 n r) :
    ∃ auth left, r.auth.finalize lib = .ok (auth, left) := by
  have hone := h.one hr
  have hlength : r.auth.round1Commits.keys.length = r.auth.fedMembers.keys.length := by
    have := length_keys_of_mem_iff hone.commits hone.mine
    have := h.two
    have := hstarts.1
    rw [hone.members]
    omega
  obtain ⟨channels, hchannels⟩ : ∃ channels, ((ascending r.auth.fedMembers).filter fun fed =>
      fed.1 ≠ r.auth.myFrostId).mapM (r.auth.channel lib
        ⟨r.auth.setup, (ascending r.auth.round1Commits).map Prod.snd⟩) = .ok channels := by
    refine exists_mapM_eq_ok fun fed hfed => exists_channel (h.mem_ephKeys hr hstarts ?_)
    have hlookup := mem_ascending.mp (mem_of_mem_filter hfed)
    exact hone.members ▸ mem_iff_lookup.mpr ⟨fed.2, hlookup⟩
  have hensure : (ensure (r.auth.round1Commits.keys.length = r.auth.fedMembers.keys.length)
      EncryptionError.insufficientSamples : Outcome EncryptionError Unit) = .ok () :=
    ensure_eq_ok.mpr hlength
  simp only [DkgHandshakeManager.finalize, hensure, ok_bind, hchannels]
  exact ⟨_, _, rfl⟩

theorem Fits.finalize_two (h : Fits n) {r : RoundTwo} (hr : n.state = .roundTwo r)
    (hin : r.inRound2Packages.keys.length = n.members.keys.length - 1) :
    ∃ auth left, r.auth.finalize = .ok (auth, left) := by
  have htwo := h.twoFits hr
  have hcard := card_of_mem_iff htwo.checks htwo.mine
  have := h.two
  simp only [SecureChannelManager.finalize, htwo.members]
  rw [if_neg (by omega)]
  exact ⟨_, _, rfl⟩

theorem Fits.finalize_three (h : Fits n) {r : RoundThree} (hr : n.state = .roundThree r)
    (hin : r.inRound3Packages.keys.length = n.members.keys.length - 1) :
    r.auth.finalize = .ok () := by
  have hthree := h.three hr
  have hlength := length_keys_of_mem_iff hthree.commits hthree.mine
  have := h.two
  simp only [KeyVerificationManager.finalize, hthree.members]
  rw [if_neg (by omega)]

theorem Fits.suffices (h : Fits n) : Suffices lib n := by
  unfold Suffices
  split
  · next r hr =>
    intro hstarts
    obtain ⟨auth, left, hfinalize⟩ : ∃ auth left, r.auth.finalize lib = .ok (auth, left) :=
      h.finalize_one hr hstarts
    simp [hfinalize]
  · next r hr =>
    intro hin _
    obtain ⟨auth, left, hfinalize⟩ := h.finalize_two hr hin
    simp [hfinalize]
  · next r hr =>
    intro hin _
    simp [h.finalize_three hr hin]
  · trivial

/-! ## Handling a message -/

variable {initiator : Identifier} {signature : Signature}

theorem OneFits.stored {ephPub : PublicKey} {package : Round1Package} {auth : DkgHandshakeManager}
    {out : FinMap (Identifier × Identifier) (Option OutEntryRoundOne)} (h : OneFits n r)
    (hmember : initiator ∈ n.members) (hne : initiator ≠ n.myFrostId)
    (hauth : r.auth.validateRound1 initiator ephPub signature package = .ok auth) :
    OneFits n { r with
      auth
      inRound1Packages := r.inRound1Packages.insert initiator package
      outRound1Packages := out } := by
  obtain ⟨-, -, rfl⟩ := validateRound1_eq_ok hauth
  constructor
  · exact h.own
  · exact h.members
  · simp [mem_insert, hne.symm, h.mine]
  · simpa [mem_insert] using ⟨hmember, h.known⟩
  · simp [mem_insert, h.commits, or_left_comm]
  · simp [mem_insert, h.ephKeys, or_left_comm]

variable {auth : SecureChannelManager}

theorem TwoFits.stored {r : RoundTwo} {nonce : BitVec 64} {ciphertext : List UInt8}
    {package : Round2Package} (h : TwoFits n r) (hne : initiator ≠ n.myFrostId)
    (hauth : r.auth.validateRound2 lib initiator nonce ciphertext = .ok (package, auth)) :
    TwoFits n { r with
      pending := false
      auth
      inRound2Packages := r.inRound2Packages.insert initiator package } := by
  obtain rfl := validateRound2_eq_ok hauth
  constructor
  · exact h.own
  · exact h.members
  · simp [mem_insert, hne.symm, h.mine]
  · simp [mem_insert, h.checks, or_left_comm]

theorem ThreeFits.stored {r : RoundThree} {auth : KeyVerificationManager}
    {out : FinMap (Identifier × Identifier) (Option OutEntryRoundThree)} (h : ThreeFits n r)
    (hne : initiator ≠ n.myFrostId) (hauth : r.auth.validateRound3 initiator signature = .ok auth) :
    ThreeFits n { r with
      pending := false
      auth
      inRound3Packages := r.inRound3Packages.insert initiator signature
      outRound3Packages := out } := by
  obtain ⟨_, -, -, -, rfl⟩ := validateRound3_eq_ok hauth
  constructor
  · exact h.members
  · simp [mem_insert, hne.symm, h.mine]
  · simp [mem_insert, h.commits, or_left_comm]

/-- The coupling speaks of the state, the own identifier and the members only. -/
theorem Fits.to (h : Fits n) (hown : n'.myFrostId = n.myFrostId) (hmembers : n'.members = n.members)
    (hstate : StateFits n n'.state) : Fits n' := by
  refine ⟨by rw [hown, hmembers]; exact h.member, hmembers ▸ h.two, ?_⟩
  cases hs : n'.state with
  | roundOne r =>
    rw [hs] at hstate
    exact ⟨hown ▸ hstate.own, hmembers ▸ hstate.members, hown ▸ hstate.mine,
      hmembers ▸ hstate.known, hown ▸ hstate.commits, hown ▸ hstate.ephKeys⟩
  | roundTwo r =>
    rw [hs] at hstate
    exact ⟨hown ▸ hstate.own, hmembers ▸ hstate.members, hown ▸ hstate.mine, hown ▸ hstate.checks⟩
  | roundThree r =>
    rw [hs] at hstate
    exact ⟨hmembers ▸ hstate.members, hown ▸ hstate.mine, hown ▸ hstate.commits⟩
  | awaitingInit | aborted | finalized => trivial

variable {secretPackage : Secret}

/-- The layer of a member that has just joined a session. -/
theorem joined_fits {nonce : BitVec 64} {ephPub : PublicKey} {package ours : Round1Package}
    {opened auth : DkgHandshakeManager} {rand : Rand} (h : Fits n)
    (hcoordinator : n.isCoordinator = false)
    (hopened : DkgHandshakeManager.new lib sessionContext nonce n.myFrostId n.myStaticSec
      n.members rand = .ok opened)
    (hauth : opened.validateRound1 n.coordinator ephPub signature package = .ok auth) :
    Fits (n.joined lib nonce package auth secretPackage ours) := by
  have hne : n.myFrostId ≠ n.coordinator := by simpa [isCoordinator] using hcoordinator
  obtain ⟨hlookup, -, hvalidated⟩ := validateRound1_eq_ok hauth
  have hnew := handshake_new_eq_ok hopened
  have hown : auth.myFrostId = n.myFrostId := by rw [hvalidated, hnew]
  have hmembers : auth.fedMembers = n.members := by rw [hvalidated, hnew]
  have hcommits : ∀ id, id ∈ auth.round1Commits ↔ id = n.coordinator := by
    simp [hvalidated, hnew]
  have hephKeys : ∀ id, id ∈ auth.ephKeys ↔ id = n.coordinator ∨ id = n.myFrostId := by
    simp [hvalidated, hnew, mem_insert]
  have hmember : n.coordinator ∈ n.members := by
    rw [hnew] at hlookup
    exact mem_iff_lookup.mpr ⟨_, hlookup⟩
  refine h.to rfl rfl ⟨hown, hmembers, ?_, ?_, ?_, ?_⟩
  · simp [hne]
  · simpa using hmember
  · simp [mem_insert, hown, hcommits]
  · simp [hephKeys, or_comm]

/-- The layer of a coordinator that has just started a session. -/
theorem Opens.fits {nonce : BitVec 64} {rand : Rand} (hopens : Opens lib n nonce rand n')
    (h : Fits n) : Fits n' := by
  cases hopens with
  | opened hauth hpart1 =>
    have hnew := handshake_new_eq_ok hauth
    refine h.to rfl rfl ⟨?_, ?_, ?_, ?_, ?_, ?_⟩
    · simp [hnew]
    · simp [hnew]
    · simp
    · simp
    · simp [hnew]
    · simp [hnew]

/-- Handling a message keeps the packages and the layer together. -/
theorem Handles.fits {sender : Identifier} {rand : Rand} {msg : DkgMessage}
    (hhandles : Handles lib n sender rand msg n') (h : Fits n) : Fits n' := by
  cases hhandles with
  | ignored => exact h
  | replied => exact h.to rfl rfl h.state
  | joined hcoordinator hnonce hstage hopened hauth hpart1 =>
    exact joined_fits h hcoordinator hopened hauth
  | joinFailed => exact h.to rfl rfl h.state
  | storedOne hr hmember hne hnew hauth =>
    exact h.to rfl rfl ((h.one hr).stored hmember hne hauth)
  | storedTwo hr hmember hne hnew hauth => exact h.to rfl rfl ((h.twoFits hr).stored hne hauth)
  | forwarded hr => exact h.to rfl rfl { h.twoFits hr with }
  | storedThree hr hmember hne hnew hauth => exact h.to rfl rfl ((h.three hr).stored hne hauth)
  | ackedOne hr => exact h.to rfl rfl { h.one hr with }
  | ackedTwo hr => exact h.to rfl rfl { h.twoFits hr with }
  | ackedThree hr => exact h.to rfl rfl { h.three hr with }

/-! ## Going on to the next round -/

/-- The first package is encrypted, and then the others. -/
theorem commitShares_cons {target : Identifier} {package : Round2Package}
    {shares : List (Identifier × Round2Package)} {auth' : SecureChannelManager}
    {entries : List (Identifier × OutEntryRoundTwo)} :
    commitShares lib auth ((target, package) :: shares) = .ok (auth', entries) ↔
      ∃ ciphertext nonce auth₁ rest, auth.commitRound2 lib target package =
          .ok (ciphertext, nonce, auth₁) ∧
        commitShares lib auth₁ shares = .ok (auth', rest) ∧
        entries = (target, ⟨nonce, ciphertext, none, 0⟩) :: rest := by
  constructor
  · intro h
    cases hcommit : auth.commitRound2 lib target package with
    | error e => simp [commitShares, hcommit, bind, Except.bind] at h
    | ok committed =>
      obtain ⟨ciphertext, nonce, auth₁⟩ := committed
      cases hrest : commitShares lib auth₁ shares with
      | error e => simp [commitShares, hcommit, hrest, bind, Except.bind] at h
      | ok sealed =>
        simp only [commitShares, hcommit, hrest, bind, Except.bind, pure, Except.pure,
          Except.ok.injEq, Prod.mk.injEq] at h
        exact ⟨ciphertext, nonce, auth₁, sealed.2, rfl, by rw [hrest, ← h.1], h.2.symm⟩
  · intro h
    obtain ⟨ciphertext, nonce, auth₁, rest, hcommit, hrest, hentries⟩ := h
    simp [commitShares, hcommit, hrest, hentries, bind, Except.bind, pure, Except.pure]

/-- The encrypted packages are those to be sent, and the layer has noted the own ones. -/
theorem commitShares_eq_ok : ∀ {shares : List (Identifier × Round2Package)}
    {auth auth' : SecureChannelManager} {entries : List (Identifier × OutEntryRoundTwo)},
    commitShares lib auth shares = .ok (auth', entries) →
      SameSession auth auth' ∧ ∀ id, id ∈ auth'.round2Checks ↔
        id ∈ auth.round2Checks ∨ shares ≠ [] ∧ id = auth.myFrostId
  | [], auth, auth', entries, h => by
    obtain ⟨rfl, rfl⟩ := Prod.mk.inj (Except.ok.inj h)
    exact ⟨⟨rfl, rfl, rfl⟩, by simp⟩
  | (target, package) :: shares, auth, auth', entries, h => by
    obtain ⟨ciphertext, nonce, auth₁, rest, hcommit, hrest, -⟩ := commitShares_cons.mp h
    obtain ⟨entry, -, -, -, rfl⟩ := eq_of_commitRound2 hcommit
    obtain ⟨hsame, hchecks⟩ := commitShares_eq_ok hrest
    refine ⟨⟨hsame.transcript, hsame.own, hsame.members⟩, fun id => ?_⟩
    simp only [hchecks, Finset.mem_insert]
    simp
    tauto

theorem exists_commitShares
    (hencrypt : ∀ key nonce package, (lib.encrypt key nonce package).isSome = true) :
    ∀ {shares : List (Identifier × Round2Package)} {auth : SecureChannelManager},
      (∀ share ∈ shares, share.1 ∈ auth.symmetricKeys) →
        ∃ auth' entries, commitShares lib auth shares = .ok (auth', entries)
  | [], auth, _ => ⟨auth, [], rfl⟩
  | (target, package) :: shares, auth, h => by
    obtain ⟨ciphertext, nonce, auth₁, hcommit⟩ :=
      exists_commitRound2 hencrypt package (h (target, package) mem_cons_self)
    obtain ⟨entry, -, -, -, hauth₁⟩ := eq_of_commitRound2 hcommit
    have hkept : ∀ share ∈ shares, share.1 ∈ auth₁.symmetricKeys := by
      intro share hshare
      rw [hauth₁]
      exact (mem_insert _).mpr (.inr (h share (mem_cons_of_mem _ hshare)))
    obtain ⟨auth', rest, hrest⟩ := exists_commitShares hencrypt hkept
    exact ⟨auth', _, commitShares_cons.mpr ⟨_, _, _, rest, hcommit, hrest, rfl⟩⟩

/-- FROST's second part gives a share for everyone whose package it was given, and the cipher
encrypts every share. -/
structure SealsShares (lib : Lib) : Prop where
  encrypts : ∀ key nonce package, (lib.encrypt key nonce package).isSome = true
  shares : ∀ secret packages secret' shares, lib.part2 secret packages = some (secret', shares) →
    ∀ id, id ∈ shares ↔ id ∈ packages

/-- The shares of a complete round one are encrypted. -/
theorem Fits.exists_seal (h : Fits n) (hlib : SealsShares lib) (hr : n.state = .roundOne r)
    {shares : FinMap Identifier Round2Package} {left : DkgHandshakeManager}
    (hpart2 : lib.part2 r.secretPackage r.inRound1Packages = some (secretPackage, shares))
    (hfinalize : r.auth.finalize lib = .ok (auth, left)) :
    ∃ auth' entries, commitShares lib auth (ascending shares) = .ok (auth', entries) := by
  have hone := h.one hr
  refine exists_commitShares hlib.encrypts fun share hshare => ?_
  have hin : share.1 ∈ r.inRound1Packages := (hlib.shares _ _ _ _ hpart2 share.1).mp
    (mem_iff_lookup.mpr ⟨share.2, mem_ascending.mp hshare⟩)
  refine mem_symmetricKeys hfinalize (hone.members ▸ hone.known _ hin) fun hme => ?_
  exact hone.mine (hone.own ▸ hme ▸ hin)

/-- There are shares, as there is someone else. -/
theorem Fits.shares_ne_nil (h : Fits n) (hlib : SealsShares lib) (hstarts : StartsStage2 n r)
    {shares : FinMap Identifier Round2Package}
    (hpart2 : lib.part2 r.secretPackage r.inRound1Packages = some (secretPackage, shares)) :
    ascending shares ≠ [] := by
  have hpos : 0 < r.inRound1Packages.keys.length := by
    have := h.two
    have := hstarts.1
    omega
  obtain ⟨id, hid⟩ := exists_mem_of_length_pos hpos
  have hshare : id ∈ shares := (hlib.shares _ _ _ _ hpart2 id).mpr (mem_keys.mpr hid)
  obtain ⟨share, hlookup⟩ := mem_iff_lookup.mp hshare
  exact ne_nil_of_mem (mem_ascending.mpr hlookup)

/-- Every transition keeps the packages and the layer together, unless part three of FROST
fails. -/
theorem Advances.fits {msg : DkgMessage} (hadvances : Advances lib n msg n') (h : Fits n)
    (hlib : SealsShares lib)
    (hpart3 : msg.round = 2 → ∀ r, n.state = .roundTwo r → StartsStage3 lib n r →
      lib.part3 r.secretPackage r.inRound1Packages r.inRound2Packages ≠ none) : Fits n' := by
  cases hadvances with
  | waits => exact h
  | aborted => exact h.to rfl rfl trivial
  | unfinished hmsg hr hstarts hfinalize =>
    obtain ⟨auth, left, hok⟩ := h.finalize_one hr hstarts
    exact absurd (hfinalize.symm.trans hok) (by simp)
  | unsealed hmsg hr hstarts hpart2 hfinalize hseal =>
    obtain ⟨auth', entries, hok⟩ := h.exists_seal hlib hr hpart2 hfinalize
    exact absurd (hseal.symm.trans hok) (by simp)
  | second hmsg hr hstarts hpart2 hfinalize hseal =>
    have hone := h.one hr
    obtain ⟨-, -, hown, hmembers, -⟩ := handshake_finalize_eq_ok hfinalize
    obtain ⟨hsame, hchecks⟩ := commitShares_eq_ok hseal
    refine h.to rfl rfl ⟨?_, ?_, by simp, fun id => ?_⟩
    · exact hsame.own.trans (hown.trans hone.own)
    · exact hsame.members.trans (hmembers.trans hone.members)
    · rw [hchecks, round2Checks_finalize hfinalize, hown, hone.own]
      simp [h.shares_ne_nil hlib hstarts hpart2]
  | lost hmsg hr hstarts hfails =>
    obtain ⟨e, he⟩ := hfails.resolve_left (hpart3 hmsg _ hr hstarts)
    obtain ⟨auth, left, hok⟩ := h.finalize_two hr hstarts.1
    exact absurd (he.symm.trans hok) (by simp)
  | third hmsg hr hstarts hsome hfinalize =>
    have htwo := h.twoFits hr
    have hauth := channels_finalize_eq_ok hfinalize
    refine h.to rfl rfl ⟨?_, by simp, fun id => ?_⟩
    · simp [hauth, KeyVerificationManager.commitRound3, htwo.members]
    · simp [hauth, KeyVerificationManager.commitRound3, htwo.own]
  | finished => exact h.to rfl rfl trivial

/-! ## Runs -/

theorem Stamps.fits {now : Nat} {payload : DkgPayload} (hstamps : Stamps n now payload n')
    (h : Fits n) : Fits n' := by
  cases hstamps with
  | reply => exact h
  | one hmsg hr => exact h.to rfl rfl { h.one hr with }
  | two hmsg hr => exact h.to rfl rfl { h.twoFits hr with }
  | three hmsg hr => exact h.to rfl rfl { h.three hr with }

theorem Fits.send (h : Fits n) (now : Nat) : Fits (n.send now).2 := by
  rcases @send_cases n now with ⟨-, hsend⟩ | ⟨_, payload, rest, n₁, -, -, hstamp, hsend⟩
  · rw [hsend]
    exact h.to rfl rfl h.state
  · have hn₁ := (stamp_cases hstamp).fits h
    rw [hsend]
    exact hn₁.to rfl rfl hn₁.state

theorem Fits.timeout (h : Fits n) {now : Nat} {rand : Rand}
    (htimeout : surviving (n.onTimeout lib now rand) = some n') : Fits n' := by
  obtain ⟨n₁, hn₁, rfl⟩ := onTimeout_cases htimeout
  have hfits : Fits n₁ := by
    rcases hn₁ with ⟨-, rfl⟩ | ⟨-, nonce, -, hopens⟩
    · exact h
    · exact hopens.fits h
  exact hfits.to rfl rfl hfits.state

/-- FROST's third part fails in the transition that follows a message. -/
def Part3Fails (lib : Lib) : Option DkgStateMachine → MemberEvent → Prop
  | some n, .recv payload rand => payload.recipient = n.myFrostId ∧ payload.msg.round = 2 ∧
      ∃ n₁ r, handle lib payload rand n = (.ok (), n₁) ∧ n₁.state = .roundTwo r ∧
        StartsStage3 lib n₁ r ∧
        lib.part3 r.secretPackage r.inRound1Packages r.inRound2Packages = none
  | _, _ => False

/-- A call keeps the packages and the layer together, unless FROST's third part fails in it. -/
theorem Fits.step (h : Fits n) (hlib : SealsShares lib) {i : MemberEvent}
    (hpart3 : ¬ Part3Fails lib (some n) i) (hstep : (memberStep lib (some n) i).2 = some n') :
    Fits n' := by
  cases i with
  | recv payload rand =>
    rcases recv_cases hstep with hhandles | ⟨n₁, hrecipient, hhandle, hhandles, hadvances⟩
    · exact hhandles.fits h
    · exact hadvances.fits (hhandles.fits h) hlib fun hmsg r hr hstarts hnone =>
        hpart3 ⟨hrecipient, hmsg, n₁, r, hhandle, hr, hstarts, hnone⟩
  | timeout now rand => exact h.timeout hstep
  | send now => exact some.inj hstep ▸ h.send now

/-- When the third part fails, the layer has a commitment for a package that is gone. -/
theorem Fits.not_coupled (h : Fits n) {i : MemberEvent} (hfails : Part3Fails lib (some n) i) :
    ∃ n', (memberStep lib (some n) i).2 = some n' ∧ ¬ Coupled n' := by
  cases i with
  | timeout => exact hfails.elim
  | send => exact hfails.elim
  | recv payload rand =>
    obtain ⟨hrecipient, hmsg, n₁, r, hhandle, hr, hstarts, hnone⟩ := hfails
    have hn₁ : Fits n₁ := ((handle_handles payload).of_run hhandle (by simp)).fits h
    have hadvance : advance lib payload = transitionStage3Checked lib := by
      unfold advance
      cases hm : payload.msg <;> simp_all [DkgMessage.round]
    have hstep : (memberStep lib (some n) (.recv payload rand)).2 = some { n₁ with
        state := .roundTwo { r with inRound1Packages := ∅, inRound2Packages := ∅ } } := by
      rw [memberStep, recv_eq lib rand hrecipient, bind_run, hhandle, hadvance]
      simp only [transitionStage3Checked_eq_of_none hr hstarts hnone, surviving]
    refine ⟨_, hstep, ?_⟩
    -- there is a package of someone else, and its sender was noted
    have hpos : 0 < r.inRound2Packages.keys.length := by
      have := hn₁.two
      have := hstarts.1
      omega
    obtain ⟨id, hid⟩ := exists_mem_of_length_pos hpos
    have htwo := hn₁.twoFits hr
    have hin : id ∈ r.inRound2Packages := mem_keys.mpr hid
    intro hcoupled
    have hid' := (hcoupled id).mp ((htwo.checks id).mpr (.inr hin))
    simp only [notMem_empty, or_false] at hid'
    exact htwo.mine (hid' ▸ hin)

theorem Fits.staysCoupled (h : Fits n) : StaysCoupled lib n := by
  refine ⟨h.coupled, h.suffices, fun payload rand n₁ hhandle => ?_⟩
  have hn₁ : Fits n₁ := ((handle_handles payload).of_run hhandle (by simp)).fits h
  exact ⟨hn₁.coupled, hn₁.suffices⟩

variable {myFrostId coordinator : Identifier} {myStaticSec : SecretKey}
variable {members : FinMap Identifier PublicKey} {config : Config} {nonce : Option (BitVec 64)}
variable {rand : Rand} {n₀ : DkgStateMachine} {h : MemberHistory} {s : Option DkgStateMachine}

theorem fits_of_new
    (hnew : new lib myFrostId myStaticSec coordinator members config nonce rand = .ok n₀)
    (htwo : 2 ≤ members.keys.length) : Fits n₀ := by
  have hmember : myFrostId ∈ members := by
    unfold new at hnew
    dsimp only at hnew
    split at hnew
    · cases hnew
    · next hin => exact not_not.mp hin
  have hawaiting : Fits (awaiting myFrostId myStaticSec coordinator members config) :=
    ⟨hmember, htwo, trivial⟩
  rcases new_cases hnew with rfl | ⟨nonce, hopens⟩
  · exact hawaiting
  · exact hopens.fits hawaiting

theorem fits_of_run (hlib : SealsShares lib) (hn₀ : Fits n₀)
    (hrun : Run (memberStep lib) (some n₀) h s)
    (hmeets : Meets (fun _ s i => ¬ Part3Fails lib s i) h) : ∀ n, s = some n → Fits n := by
  refine hrun.invariant (I := fun _ s => ∀ n, s = some n → Fits n) ?_ ?_ hmeets
  · intro n hn
    exact some.inj hn ▸ hn₀
  · intro h s i _ hs hpart3 n' hn'
    cases s with
    | none => cases hn'
    | some n => exact (hs n rfl).step hlib hpart3 hn'

/-- In a run of a member of a federation of at least two, the packages and the layer are
together at all times exactly if FROST's third part never fails. -/
theorem coupled_iff_part3 (hlib : SealsShares lib)
    (hnew : new lib myFrostId myStaticSec coordinator members config nonce rand = .ok n₀)
    (htwo : 2 ≤ members.keys.length) (hrun : Run (memberStep lib) (some n₀) h s) :
    (∀ n, Visits h s n → StaysCoupled lib n) ↔ Meets (fun _ s i => ¬ Part3Fails lib s i) h := by
  have hn₀ := fits_of_new hnew htwo
  induction hrun with
  | start =>
    refine ⟨fun _ => trivial, fun _ n hn => ?_⟩
    obtain rfl : n = n₀ := by simpa [Visits] using hn
    exact hn₀.staysCoupled
  | @next h s i hrun ih =>
    simp only [visits_fire, or_imp, forall_and, ih, Meets]
    refine and_congr_left fun hmeets => ⟨fun hlast hfails => ?_, fun hpart3 => ?_⟩
    · cases s with
      | none => exact hfails.elim
      | some n =>
        have hfits := fits_of_run hlib hn₀ hrun hmeets n rfl
        obtain ⟨n', hstep, hnot⟩ := hfits.not_coupled hfails
        exact hnot (hlast n' hstep).1
    · exact fun n hn => (fits_of_run hlib hn₀ (.next i hrun) ⟨hpart3, hmeets⟩ n hn).staysCoupled

end

/-! ## The coordinator of a federation of two -/

/-- The package of round one of member 2. -/
def pairRoundOne : DkgPayload :=
  ⟨2, 1, .round1 2 sessionContext 1 ⟨false, 106⟩
    ⟨⟨false, 12⟩, .round1 ⟨⟨sessionContext, 1⟩, 2, ⟨false, 106⟩, [6]⟩⟩ [6]⟩

/-- Rounds one and two as the coordinator sees them, the newest first, with the ciphertext of
member 2's share. -/
def pairRounds (ciphertext : List UInt8) : List MemberEvent :=
  [.recv ⟨2, 1, .ackRound2 1 2⟩ 0, .recv ⟨2, 1, .round2 2 1 0 ciphertext⟩ 0,
    .recv ⟨2, 1, .ackRound1 1⟩ 0, .recv pairRoundOne 0]

/-- The run of the coordinator with a ciphertext of member 2. -/
def pairRun (lib : Lib) (ciphertext : List UInt8) : MemberHistory × Option DkgStateMachine :=
  play (memberStep lib) (some (pairFirst lib)) (pairRounds ciphertext)

theorem pairLib_sealsShares : SealsShares pairLib where
  encrypts _ _ _ := rfl
  shares secret packages secret' shares h id := by
    obtain ⟨-, rfl⟩ := Prod.mk.inj (some.inj h)
    rw [FinMap.mem_iff_lookup, AList.mem_keys]
    constructor
    · intro ⟨v, hv⟩
      obtain ⟨id', hid', heq⟩ := mem_map.mp (mem_of_lookup_ofList hv)
      exact (Prod.mk.inj heq).1 ▸ hid'
    · intro hid
      exact exists_lookup_ofList (mem_map.mpr ⟨id, hid, rfl⟩)

/-- With a good share the coordinator comes to round three, coupled all the way. -/
theorem good_share_coupled :
    (pairRun pairLib [2, 11, 106, 12, 105, 6]).2.map (·.state.stage) = some .roundThree ∧
      ∀ n, Visits (pairRun pairLib [2, 11, 106, 12, 105, 6]).1
        (pairRun pairLib [2, 11, 106, 12, 105, 6]).2 n → StaysCoupled pairLib n := by
  have hmeets : ∀ h : MemberHistory, Meets (fun _ s i => ¬ Part3Fails pairLib s i) h := by
    intro h
    induction h with
    | nil => trivial
    | cons t h ih =>
      refine ⟨fun hfails => ?_, ih⟩
      unfold Part3Fails at hfails
      split at hfails
      · obtain ⟨-, -, n₁, r, -, -, -, hnone⟩ := hfails
        cases hnone
      · exact hfails
  have hnew : new pairLib 1 11 1 pairNetwork.members pairNetwork.config (some 1) 5 =
      .ok (pairFirst pairLib) := Outcome.eq_ok_getD (by decide +kernel) _
  exact ⟨by decide +kernel, (coupled_iff_part3 pairLib_sealsShares hnew (by decide)
    (Run.play _)).mpr (hmeets _)⟩

/-- FROST's third part refuses an empty share. -/
def pickyLib : Lib :=
  { pairLib with
    part3 := fun secret packages shares =>
      if [] ∈ shares.values then none else pairLib.part3 secret packages shares }

/-- The layer has noted member 2, and its package is not there. -/
def notesNothing (n : DkgStateMachine) : Bool :=
  match n.state with
  | .roundTwo r =>
    2 ∈ r.auth.round2Checks && !(2 ∈ r.inRound2Packages : Bool) && !(2 = n.myFrostId : Bool)
  | _ => false

theorem not_coupled_of_notesNothing {n : DkgStateMachine} (h : notesNothing n = true) :
    ¬ Coupled n := by
  unfold notesNothing at h
  split at h
  · next r hr =>
    intro hcoupled
    simp only [Coupled, hr] at hcoupled
    simp only [hcoupled, Bool.and_eq_true, decide_eq_true_eq, Bool.not_eq_true',
      decide_eq_false_iff_not] at h
    tauto
  · cases h

/-- With a bad share FROST's third part fails, and the layer has a package that is gone. -/
theorem bad_share_uncouples :
    SealsShares pickyLib ∧
      new pickyLib 1 11 1 pairNetwork.members pairNetwork.config (some 1) 5 =
        .ok (pairFirst pickyLib) ∧
      2 ≤ pairNetwork.members.keys.length ∧
      ∃ n, Visits (pairRun pickyLib [2, 11, 106, 12, 105]).1
        (pairRun pickyLib [2, 11, 106, 12, 105]).2 n ∧ ¬ Coupled n := by
  refine ⟨⟨pairLib_sealsShares.encrypts, pairLib_sealsShares.shares⟩,
    Outcome.eq_ok_getD (by decide +kernel) _, by decide, ?_⟩
  obtain ⟨n, hn, hnotes⟩ : ∃ n, (pairRun pickyLib [2, 11, 106, 12, 105]).2 = some n ∧
      notesNothing n = true :=
    (any_eq_true _ _).mp (by decide +kernel)
  exact ⟨n, hn ▸ mem_cons_self, not_coupled_of_notesNothing hnotes⟩

end Macbeth.Dkg
