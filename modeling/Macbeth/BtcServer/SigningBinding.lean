import Macbeth.BtcServer.RequestMoves
import Macbeth.Lib.Run

/-!
# The transaction of a signing session

In round one a signer validates a PSBT and commits to nonces for it; in round two it signs
with these nonces.  What it keeps in between is the nonces alone, and what it checks in
round two of the PSBT it is given is that it carries the commitments to them.  A PSBT with
the same commitments and another transaction is signed as well.

So the transaction that is signed is the one that was validated in every run in which
nobody moves commitments to another transaction, and only there.
-/

namespace Macbeth

open Handler Option Outcome

/-- A session between the rounds: the PSBT that passed the checks of round one, and the
one with the commitments that was handed out for it. -/
structure Session where
  validated : Psbt
  handedOut : Psbt

/-- The session a history has left open. -/
def session : ServerHistory → Option Session
  | [] => none
  | t :: h =>
    match t.input.request, t.output with
    | .getRound1SigningPackage psbt _, .ok (.psbt reply) => some ⟨psbt, reply⟩
    | .abortSigning, _ => none
    | .getRound2SigningPackage _, .ok _ => none
    | _, .panic => none
    | _, _ => session h

/-- Every signature was for the transaction of the session it belongs to. -/
def SignsValidated : ServerHistory → Prop
  | [] => True
  | t :: h =>
    (∀ psbt reply, t.input.request = .getRound2SigningPackage psbt → t.output = .ok reply →
      ∃ x, session h = some x ∧ psbt.unsignedTx = x.validated.unsignedTx) ∧
    SignsValidated h

/-- A PSBT that comes back with the commitments of the session has its transaction. -/
def KeepsTransaction (config : Config) (h : ServerHistory) (_ : Server) (input : Input) : Prop :=
  ∀ psbt x, input.request = .getRound2SigningPackage psbt → session h = some x →
    psbt.commitmentsOf config.lib config.identifier =
      x.handedOut.commitmentsOf config.lib config.identifier →
    psbt.unsignedTx = x.validated.unsignedTx

/-! ## The nonces -/

section nonces
variable (config : Config) (input : Input)

/-- Only the requests of a session touch the nonces. -/
theorem stable_nonces {input : Input} (hsigns : ¬ input.request.signs)
    (nonces : Option SessionNonces) :
    Stable config input fun c => c.nonces = nonces := by
  intro c c' hmove h
  cases hmove with
  | setNonces _ h' => exact absurd h' hsigns
  | _ => exact h

/-- What round one does to the nonces. -/
theorem serveRound1_nonces (psbt : Psbt) (commit : Nat → SigningNonces × SigningCommitments)
    (e₀ : Exec) :
    Triple (· = e₀) (serveRound1 config psbt commit)
      (fun reply e => ∃ handedOut nonces, reply = .psbt handedOut ∧
        e.server.frostRound1Nonces = some nonces ∧
        handedOut.commitmentsOf config.lib config.identifier = nonces.map fun x => some x.2)
      fun e => e.server.frostRound1Nonces = e₀.server.frostRound1Nonces := by
  refine Triple.bind (Q := fun _ e => e = e₀) (fun _ h => h) fun server => ?_
  refine Triple.ite (fun _ => Triple.fail fun _ h => by rw [h]) fun _ => ?_
  refine Triple.bind (Q := fun x _ => x.1.commitmentsOf config.lib config.identifier =
    x.2.map fun nonce => some nonce.2) (Triple.zoom fun e h => ?_) fun x => ?_
  · subst h
    exact (getRound1SigningPackage_spec commit).conseq (fun _ h => h) (fun _ _ h => h.1)
      fun _ _ => rfl
  · intro e hcommitments
    exact ⟨x.1, x.2, rfl, rfl, hcommitments⟩

/-- Tracking the signed transaction does not touch the nonces. -/
theorem trackSigned_nonces (signed : Psbt) (nonces : Option SessionNonces) :
    Preserves (fun e => e.server.frostRound1Nonces = nonces)
      (trackSigned config input.bitcoind signed) := by
  refine Triple.bind (Triple.lift_eq fun _ h => h) fun tx => Triple.of_fact fun _ => ?_
  refine Triple.bind (Triple.lift_eq fun _ h => h) fun _ => Triple.of_fact fun _ => ?_
  refine Triple.bind (Triple.lift_eq fun _ h => h) fun ids => Triple.of_fact fun _ => ?_
  refine Triple.bind (Q := fun _ (e : Exec) => e.server.frostRound1Nonces = nonces) (fun _ h => h)
    fun server => ?_
  refine Triple.bind (Q := fun _ (e : Exec) => e.server.frostRound1Nonces = nonces) (fun _ h => h)
    fun now => ?_
  refine Triple.bind (Q := fun _ (e : Exec) => e.server.frostRound1Nonces = nonces) ?_ fun _ =>
    Triple.ite (fun _ _ h => h) fun _ => Triple.pure fun _ h => h
  refine Triple.bind (Q := fun _ (e : Exec) => e.server.frostRound1Nonces = nonces) (fun _ h => h)
    fun server => ?_
  refine Triple.bind (Triple.lift_eq fun _ h => h) fun x => Triple.of_fact fun _ => ?_
  exact fun _ h => h

/-- Round two signs only what carries the commitments to the nonces, which it forgets. -/
theorem serveRound2_nonces (psbt : Psbt) (e₀ : Exec) :
    Triple (· = e₀) (serveRound2 config input.bitcoind psbt)
      (fun _ e => (∃ nonces, e₀.server.frostRound1Nonces = some nonces ∧
        psbt.commitmentsOf config.lib config.identifier = nonces.map fun x => some x.2) ∧
        e.server.frostRound1Nonces = none)
      fun e => e.server.frostRound1Nonces = e₀.server.frostRound1Nonces ∨
        e.server.frostRound1Nonces = none := by
  refine Triple.bind (Q := fun server e => e = e₀ ∧ server = e₀.server) (fun _ h => ⟨h, by rw [h]⟩)
    fun server => ?_
  intro e h
  obtain ⟨rfl, rfl⟩ := h
  cases hnonces : e.server.frostRound1Nonces with
  | none => exact .inl hnonces
  | some nonces =>
    refine Triple.bind (P := (· = e)) (Q := fun _ _ => psbt.commitmentsOf config.lib
      config.identifier = nonces.map fun nonce => some nonce.2) (Triple.zoom fun e' h => ?_)
      (fun signed => ?_) e rfl
    · subst h
      exact (getRound2SigningPackage_spec nonces).conseq (fun _ h => h)
        (fun _ _ h => h.1.commitments) fun _ _ => .inl hnonces
    · refine Triple.bind (Q := fun _ (e : Exec) => psbt.commitmentsOf config.lib config.identifier =
        (nonces.map fun nonce => some nonce.2) ∧ e.server.frostRound1Nonces = none)
        (fun _ h => ⟨h, rfl⟩) fun _ => Triple.of_fact fun hcommitments => ?_
      exact Triple.bind ((trackSigned_nonces config input signed none).conseq (fun _ h => h) (fun _ _ h => h)
        fun _ h => .inr h) fun _ => Triple.pure fun _ h => ⟨⟨nonces, rfl, hcommitments⟩, h⟩

end nonces

/-! ## Runs -/

section runs
variable {config : Config}

/-- The nonces in memory are those of the open session. -/
def NoncesOfSession (config : Config) (h : ServerHistory) (server : Server) : Prop :=
  ∀ nonces, server.frostRound1Nonces = some nonces → ∃ x, session h = some x ∧
    x.handedOut.commitmentsOf config.lib config.identifier = nonces.map fun x => some x.2

/-- A restarted server has no nonces. -/
theorem noncesOfSession_start (h : ServerHistory) (db : Db) :
    NoncesOfSession config h (config.start db) := nofun

/-- Other requests leave the session as it is, unless the server stops. -/
theorem session_cons {t : Transition Server Input (Outcome Status Reply)} {h : ServerHistory}
    (hsigns : ¬ t.input.request.signs) (hout : t.output ≠ .panic) : session (t :: h) = session h := by
  obtain ⟨pre, ⟨request, bitcoind, fuel⟩, output, post⟩ := t
  cases output with
  | panic => exact absurd rfl hout
  | ok reply => cases request <;> first | rfl | exact absurd trivial hsigns
  | err e => cases request <;> first | rfl | exact absurd trivial hsigns

/-- Round two only signs in a session, and with its commitments. -/
theorem commitments_of_round2 {h : ServerHistory} {server : Server} {input : Input} {psbt : Psbt}
    {reply : Reply} (hnonces : NoncesOfSession config h server)
    (hreq : input.request = .getRound2SigningPackage psbt)
    (hout : (fire config.step server input).output = .ok reply) :
    ∃ x, session h = some x ∧ psbt.commitmentsOf config.lib config.identifier =
      x.handedOut.commitmentsOf config.lib config.identifier := by
  have hserve := serveRound2_nonces config input psbt ⟨server, 0⟩
  have hcases := step_cases (by rw [hreq]; exact hserve)
  simp only [hout, ok.injEq, reduceCtorEq, false_and, exists_false, or_false] at hcases
  obtain ⟨_, e, -, ⟨⟨nonces, hsome, hcommitments⟩, -⟩, -⟩ := hcases
  obtain ⟨x, hx, hhandedOut⟩ := hnonces nonces hsome
  exact ⟨x, hx, hcommitments.trans hhandedOut.symm⟩

theorem noncesOfSession_step {h : ServerHistory} {server : Server} (input : Input)
    (hnonces : NoncesOfSession config h server) :
    NoncesOfSession config (fire config.step server input :: h) (config.step server input).2 := by
  by_cases hsigns : input.request.signs
  · cases hreq : input.request with
    | abortSigning =>
      have hstep : (config.step server input).2.frostRound1Nonces = none := by
        simp only [Config.step, hreq, Request.serve]
        rfl
      intro nonces h'
      rw [hstep] at h'
      cases h'
    | getRound1SigningPackage psbt commit =>
      have hserve := serveRound1_nonces config psbt commit ⟨server, 0⟩
      obtain ⟨_, e, hout, ⟨handedOut, nonces, rfl, hsome, hcommitments⟩, hstep⟩ |
        ⟨err, e, hout, hsame, hstep⟩ | ⟨e, -, -, hstep⟩ := step_cases (by rw [hreq]; exact hserve)
      · intro nonces' h'
        rw [hstep, hsome] at h'
        obtain rfl := some.inj h'
        refine ⟨⟨psbt, handedOut⟩, ?_, hcommitments⟩
        simp only [session, fire] at hout ⊢
        rw [hreq, hout]
      · intro nonces h'
        rw [hstep, hsame] at h'
        obtain ⟨x, hx, hcommitments⟩ := hnonces nonces h'
        refine ⟨x, ?_, hcommitments⟩
        simp only [session, fire] at hout ⊢
        rw [hreq, hout]
        exact hx
      · rw [hstep]
        exact noncesOfSession_start _ _
    | getRound2SigningPackage psbt =>
      have hserve := serveRound2_nonces config input psbt ⟨server, 0⟩
      obtain ⟨_, e, hout, ⟨-, hnone⟩, hstep⟩ | ⟨err, e, hout, hsame, hstep⟩ | ⟨e, -, -, hstep⟩ :=
        step_cases (by rw [hreq]; exact hserve)
      · intro nonces h'
        rw [hstep, hnone] at h'
        cases h'
      · intro nonces h'
        rw [hstep] at h'
        obtain hsame | hnone := hsame
        · obtain ⟨x, hx, hcommitments⟩ := hnonces nonces (hsame ▸ h')
          refine ⟨x, ?_, hcommitments⟩
          simp only [session, fire] at hout ⊢
          rw [hreq, hout]
          exact hx
        · rw [hnone] at h'
          cases h'
      · rw [hstep]
        exact noncesOfSession_start _ _
    | _ => rw [hreq] at hsigns; exact hsigns.elim
  · obtain ⟨server', phase, hkept, ⟨hout, hstep⟩ | ⟨hout, hstep⟩⟩ :=
      (stable_nonces config hsigns server.frostRound1Nonces).step rfl
    · intro nonces h'
      rw [hstep] at h'
      rw [session_cons hsigns hout]
      exact hnonces nonces (hkept ▸ h')
    · rw [hstep]
      exact noncesOfSession_start _ _

/-- In every run whose round-two requests carry the commitments of the session only with
its transaction, every signature is for the transaction that was validated in round one. -/
theorem round2_signs_validated (config : Config) (db : Db) {h : ServerHistory} {server : Server}
    (hrun : Run config.step (config.start db) h server)
    (hmeets : Meets (KeepsTransaction config) h) : SignsValidated h := by
  refine (hrun.invariant (I := fun h server => SignsValidated h ∧ NoncesOfSession config h server)
    ⟨trivial, noncesOfSession_start _ _⟩ (fun h server input _ ⟨hsigned, hnonces⟩ hkeeps => ?_)
    hmeets).1
  refine ⟨⟨fun psbt reply hreq hout => ?_, hsigned⟩, noncesOfSession_step input hnonces⟩
  obtain ⟨x, hx, hcommitments⟩ := commitments_of_round2 hnonces hreq hout
  exact ⟨x, hx, hkeeps psbt x hreq hx hcommitments⟩

end runs

/-! ## Two requests -/

/-- Round one for a payment from the first coin, then round two for a payment from `coin`
with the commitments of round one. -/
def twoRounds (coin : OutPoint) : List Input :=
  [⟨.getRound2SigningPackage (committedPsbt coin 10), unreachable, 0⟩,
    ⟨.getRound1SigningPackage (paymentPsbt firstCoin []) fun _ => noncePair 10, unreachable, 0⟩]

/-- The run on these requests. -/
def twoRoundsRun (coin : OutPoint) : ServerHistory × Server :=
  play firstSigner.step (firstSigner.start freshDb) (twoRounds coin)

theorem session_of_round1 {x : Session} (coin : OutPoint)
    (h : session (twoRoundsRun coin).1.tail = some x) :
    x.validated.unsignedTx = payment firstCoin := by
  have hsession : (session (play firstSigner.step (firstSigner.start freshDb)
      (twoRounds firstCoin).tail).1).map (·.validated.unsignedTx) = some (payment firstCoin) := by
    decide +kernel
  have h : session (play firstSigner.step (firstSigner.start freshDb)
      (twoRounds firstCoin).tail).1 = some x := h
  rw [h] at hsession
  exact some.inj hsession

/-- The commitments for a payment from the first coin are good for one from the second. -/
theorem round2_signs_other_payment :
    ∃ h server, Run firstSigner.step (firstSigner.start freshDb) h server ∧ ¬ SignsValidated h := by
  refine ⟨_, _, Run.play (twoRounds secondCoin), fun hsigned => ?_⟩
  have hreply : ((twoRoundsRun secondCoin).1.head?.map (·.output.returns fun _ => true)) =
      some true := by decide +kernel
  obtain ⟨reply, hout, -⟩ := returns_eq_true.mp (some.inj hreply)
  obtain ⟨x, hx, htx⟩ := hsigned.1 _ reply rfl hout
  rw [session_of_round1 secondCoin hx] at htx
  exact absurd htx (by decide)

/-- The payment that was validated is signed. -/
theorem round2_signs_same_payment :
    (∃ reply, (twoRoundsRun firstCoin).1.head?.map (·.output) = some (.ok reply)) ∧
      SignsValidated (twoRoundsRun firstCoin).1 := by
  constructor
  · have hreply : ((twoRoundsRun firstCoin).1.head?.map (·.output.returns fun _ => true)) =
        some true := by decide +kernel
    obtain ⟨reply, hout, -⟩ := returns_eq_true.mp (some.inj hreply)
    exact ⟨reply, congrArg some hout⟩
  · refine round2_signs_validated firstSigner freshDb (Run.play (twoRounds firstCoin)) ?_
    refine ⟨fun psbt x hreq hx _ => ?_, nofun, trivial⟩
    cases hreq
    rw [session_of_round1 firstCoin hx]
    rfl

end Macbeth
