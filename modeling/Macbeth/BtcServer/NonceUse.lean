import Macbeth.BtcServer.SigningBinding

/-!
# Nonces are used once

Round one, round two up to the signature, and an abort each hold the lock on the nonces from
beginning to end.  What round two does after that runs without it, while other requests come
and go, and the shares are released only at the very end.

`SigningNode` is the server with the requests that are in that last part.  Every pair of
nonces is in one place at a time: in the slot, with a request in flight, in the response that
released a share made with it, or gone.  So `uses` never overtakes `draws`.
-/

namespace Macbeth

open Handler List

/-- A pair of nonces with its commitments. -/
abbrev NoncePair := SigningNonces × SigningCommitments

/-! ## Requests that overlap -/

/-- The local variables of a round-two request that has signed. -/
structure Flight where
  nonces : SessionNonces
  signed : Psbt

/-- The server and the round-two requests it has not answered. -/
structure SigningNode where
  server : Server
  flights : List Flight

inductive SigningEvent where
  /-- A request; for round two the part that holds the lock. -/
  | request (input : Input)
  /-- The rest of a round-two request. -/
  | finish (k : Nat) (bitcoind : Bitcoind)

section node
variable (config : Config)

/-- `get_round2_signing_package` until it drops the lock. -/
def beginRound2 (psbt : Psbt) : Handler Exec Status Flight := do
  match (← getServer).frostRound1Nonces with
  | none => Handler.fail .notInSigningSession
  | some nonces =>
    let signed ← onDb .round2 (getRound2SigningPackage config.btc config.lib config.minSigners
      config.identifier psbt nonces)
    setNonces none
    pure ⟨nonces, signed⟩

/-- `get_round2_signing_package` from there on. -/
def finishRound2 (bitcoind : Bitcoind) (flight : Flight) : Handler Exec Status Reply := do
  trackSigned config bitcoind flight.signed
  pure (.psbt flight.signed)

/-- The halves of round two. -/
theorem serveRound2_eq (bitcoind : Bitcoind) (psbt : Psbt) :
    serveRound2 config bitcoind psbt =
      beginRound2 config psbt >>= finishRound2 config bitcoind := by
  funext e
  simp only [serveRound2, beginRound2, getServer, bind_run, get_run, pure_run]
  cases e.server.frostRound1Nonces with
  | none => rfl
  | some nonces =>
    simp only [bind_run, setNonces, update_run, pure_run]
    cases onDb .round2 (getRound2SigningPackage config.btc config.lib config.minSigners
      config.identifier psbt nonces) e with
    | mk result e' => cases result <;> rfl

/-- The node after a handler; a panic takes the requests in flight down with the server. -/
def Config.resume {α : Type} (flights : List Flight) (answer : α → Option Reply × List Flight) :
    Outcome Status α × Exec → Outcome Status (Option Reply) × SigningNode
  | (.ok a, e) => (.ok (answer a).1, ⟨e.server, (answer a).2⟩)
  | (.err err, e) => (.err err, ⟨e.server, flights⟩)
  | (.panic, e) => (.panic, ⟨config.start e.server.db, []⟩)

/-- One event. -/
def Config.signStep (node : SigningNode) :
    SigningEvent → Outcome Status (Option Reply) × SigningNode
  | .request ⟨.getRound2SigningPackage psbt, _, _⟩ =>
    config.resume node.flights (fun flight => (none, node.flights ++ [flight]))
      (beginRound2 config psbt ⟨node.server, 0⟩)
  | .request ⟨request, bitcoind, fuel⟩ =>
    config.resume node.flights (fun reply => (some reply, node.flights))
      (request.serve config bitcoind fuel ⟨node.server, 0⟩)
  | .finish k bitcoind =>
    match node.flights[k]? with
    | none => (.ok none, node)
    | some flight =>
      config.resume (node.flights.eraseIdx k) (fun reply => (some reply, node.flights.eraseIdx k))
        (finishRound2 config bitcoind flight ⟨node.server, 0⟩)

end node

/-! ## Counting -/

abbrev SigningTransition := Transition SigningNode SigningEvent (Outcome Status (Option Reply))

abbrev SigningHistory := History SigningNode SigningEvent (Outcome Status (Option Reply))

/-- The pairs a request for round one generates, one per input. -/
def Request.drawn : Request → List NoncePair
  | .getRound1SigningPackage psbt commit => (List.range psbt.inputs.length).map commit
  | _ => []

/-- The pairs a round one has generated and committed to. -/
def drawnPairs (t : SigningTransition) : List NoncePair :=
  match t.input, t.output with
  | .request input, .ok _ => input.request.drawn
  | _, _ => []

/-- The response of round two that is released, with the pairs it was signed with. -/
def releasedFlight (t : SigningTransition) : Option Flight :=
  match t.input, t.output with
  | .finish k _, .ok _ => t.pre.flights[k]?
  | _, _ => none

/-- How often a pair was generated. -/
def draws (pair : NoncePair) (h : SigningHistory) : Nat :=
  (h.map fun t => (drawnPairs t).count pair).sum

/-- The pairs a released response was signed with. -/
def usedPairs (t : SigningTransition) : SessionNonces :=
  ((releasedFlight t).map (·.nonces)).getD []

/-- How often a share made with a pair was released. -/
def uses (pair : NoncePair) (h : SigningHistory) : Nat :=
  (h.map fun t => (usedPairs t).count pair).sum

/-- The pairs in the slot. -/
def Server.slot (server : Server) : SessionNonces := server.frostRound1Nonces.getD []

/-- How often a node holds a pair. -/
def SigningNode.held (node : SigningNode) (pair : NoncePair) : Nat :=
  node.server.slot.count pair + (node.flights.map (·.nonces.count pair)).sum

/-- The response holds, for each input, the share made with that input's pair. -/
def Flight.MadeWith (config : Config) (flight : Flight) : Prop :=
  ∃ (psbt : Psbt) (packages : List SigningPackage) (key : KeyPackage),
    psbt.signingPackages config.lib = .ok packages ∧
    flight.signed.unsignedTx = psbt.unsignedTx ∧
    ((packages.zip psbt.inputs).zipIdx.mapM fun x =>
      signInput config.lib config.identifier flight.nonces key x.1.1 x.1.2 x.2) =
        .ok flight.signed.inputs

/-! ## Where the pairs of one event go -/

section step
variable (config : Config) (server : Server)

/-- The node after an event, by how its handler ended. -/
theorem resume_cases {server : Server} {α : Type} {x : Handler Exec Status α} {Q : α → Exec → Prop}
    {E : Exec → Prop} (flights : List Flight) (answer : α → Option Reply × List Flight)
    (h : Triple (· = ⟨server, 0⟩) x Q E) :
    (∃ a e, config.resume flights answer (x ⟨server, 0⟩) =
      (.ok (answer a).1, ⟨e.server, (answer a).2⟩) ∧ Q a e) ∨
    (∃ err e, config.resume flights answer (x ⟨server, 0⟩) = (.err err, ⟨e.server, flights⟩) ∧
      E e) ∨
    ∃ db, config.resume flights answer (x ⟨server, 0⟩) = (.panic, ⟨config.start db, []⟩) := by
  have hrun := h ⟨server, 0⟩ rfl
  revert hrun
  rcases x ⟨server, 0⟩ with ⟨a | err | _, e⟩ <;> intro hrun
  · exact .inl ⟨a, e, rfl, hrun⟩
  · exact .inr (.inl ⟨err, e, rfl, hrun⟩)
  · exact .inr (.inr ⟨e.server.db, rfl⟩)

theorem nonces_of_getRound1SigningPackage {btc : BitcoinLib} {lib : SigningLib} {minSigners : Nat}
    {identifier : Identifier} {psbt : Psbt} {commit : Nat → NoncePair} {db db' : Db}
    {x : Psbt × SessionNonces}
    (h : getRound1SigningPackage btc lib minSigners identifier psbt commit db = (.ok x, db')) :
    x.2 = (List.range psbt.inputs.length).map commit := by
  obtain ⟨_, _, -, h⟩ := bind_eq_ok.mp h
  rw [get_bind_eq_ok] at h
  obtain ⟨_, _, -, h⟩ := bind_eq_ok.mp h
  obtain ⟨rfl, -⟩ : _ = x ∧ _ := by simpa using h
  rfl

/-- Round one fills an empty slot with the pairs it draws. -/
theorem serveRound1_slot (psbt : Psbt) (commit : Nat → NoncePair) :
    Triple (· = ⟨server, 0⟩) (serveRound1 config psbt commit)
      (fun _ e => server.slot = [] ∧ e.server.slot = (List.range psbt.inputs.length).map commit)
      fun e => e.server.slot = server.slot := by
  refine Triple.bind (Q := fun s e => s = server ∧ e = ⟨server, 0⟩) (fun _ h => ⟨by rw [h], h⟩)
    fun s => Triple.of_fact fun hs => ?_
  subst hs
  refine Triple.ite (fun _ => Triple.fail fun _ h => by rw [h]) fun hnone => ?_
  have hempty : s.slot = [] := by
    rw [Server.slot, Option.not_isSome_iff_eq_none.mp hnone]
    rfl
  refine Triple.bind (Q := fun x _ => x.2 = (List.range psbt.inputs.length).map commit)
    (Triple.zoom fun e h => ?_) fun x e hx => ⟨hempty, hx⟩
  subst h
  exact (Triple.of_ok fun _ _ _ _ h => nonces_of_getRound1SigningPackage h).conseq
    (fun _ h => h) (fun _ _ h => h) fun _ _ => rfl

theorem madeWith_of_getRound2SigningPackage {config : Config} {psbt signed : Psbt}
    {nonces : SessionNonces} {db db' : Db}
    (h : getRound2SigningPackage config.btc config.lib config.minSigners config.identifier psbt
      nonces db = (.ok signed, db')) : Flight.MadeWith config ⟨nonces, signed⟩ := by
  obtain ⟨_, _, -, h⟩ := bind_eq_ok.mp h
  obtain ⟨tx, _, -, h⟩ := bind_eq_ok.mp h
  obtain ⟨packages, _, hpackages, h⟩ := bind_eq_ok.mp h
  obtain ⟨_, _, -, h⟩ := bind_eq_ok.mp h
  obtain ⟨_, _, -, h⟩ := bind_eq_ok.mp h
  rw [get_bind_eq_ok] at h
  obtain ⟨key, _, -, h⟩ := bind_eq_ok.mp h
  obtain ⟨inputs, _, hinputs, h⟩ := bind_eq_ok.mp h
  obtain ⟨_, _, -, h⟩ := bind_eq_ok.mp h
  obtain ⟨rfl, -⟩ : _ = signed ∧ _ := by simpa using h
  exact ⟨psbt, packages, key, Outcome.mapErr_eq_ok.mp (lift_eq_ok.mp hpackages).1, rfl,
    (lift_eq_ok.mp hinputs).1⟩

/-- Round two takes the pairs it has signed with out of the slot. -/
theorem beginRound2_slot (psbt : Psbt) :
    Triple (· = ⟨server, 0⟩) (beginRound2 config psbt)
      (fun flight e => flight.MadeWith config ∧ server.slot = flight.nonces ∧ e.server.slot = [])
      fun e => e.server.slot = server.slot := by
  refine Triple.bind (Q := fun s e => s = server ∧ e = ⟨server, 0⟩) (fun _ h => ⟨by rw [h], h⟩)
    fun s => Triple.of_fact fun hs => ?_
  subst hs
  cases hnonces : s.frostRound1Nonces with
  | none => exact Triple.fail fun _ h => by rw [h]
  | some nonces =>
    have hslot : s.slot = nonces := by
      rw [Server.slot, hnonces]
      rfl
    refine Triple.bind (Q := fun signed _ => Flight.MadeWith config ⟨nonces, signed⟩)
      (Triple.zoom fun e h => ?_) fun signed => ?_
    · subst h
      exact (Triple.of_ok fun _ _ _ _ h => madeWith_of_getRound2SigningPackage h).conseq
        (fun _ h => h) (fun _ _ h => h) fun _ _ => rfl
    · intro e hmade
      exact ⟨hmade, hslot, rfl⟩

/-- What a request does to the slot. -/
theorem serve_slot (input : Input)
    (hround2 : ∀ psbt, input.request ≠ .getRound2SigningPackage psbt) :
    Triple (· = ⟨server, 0⟩) (input.request.serve config input.bitcoind input.fuel)
      (fun _ e => ∀ pair, e.server.slot.count pair ≤
        server.slot.count pair + input.request.drawn.count pair)
      fun e => e.server.slot = server.slot := by
  by_cases hsigns : input.request.signs
  · cases hreq : input.request with
    | abortSigning =>
      intro e h pair
      exact Nat.zero_le _
    | getRound1SigningPackage psbt commit =>
      refine (serveRound1_slot config server psbt commit).conseq (fun _ h => h)
        (fun _ e h pair => ?_) fun _ h => h
      rw [h.2, Request.drawn]
      exact Nat.le_add_left _ _
    | getRound2SigningPackage psbt => exact absurd hreq (hround2 psbt)
    | _ => rw [hreq] at hsigns; exact hsigns.elim
  · have hstable := (stable_nonces config hsigns server.frostRound1Nonces).serve
    refine hstable.conseq (fun _ h => ?_) (fun _ e h pair => ?_) fun e h => ?_
    · subst h
      exact ⟨rfl, rfl⟩
    · obtain ⟨phase, h⟩ := h
      rw [Server.slot, show e.server.frostRound1Nonces = _ from h]
      exact Nat.le_add_right _ _
    · obtain ⟨phase, h⟩ := h
      rw [Server.slot, show e.server.frostRound1Nonces = _ from h]
      rfl

variable {config}

theorem mem_flights_of_releasedFlight {t : SigningTransition} {flight : Flight}
    (h : releasedFlight t = some flight) : flight ∈ t.pre.flights := by
  unfold releasedFlight at h
  split at h
  case h_1 => exact mem_of_getElem? h
  case h_2 => cases h

/-- All requests but round two hold no lock beyond their end. -/
theorem signStep_request {node : SigningNode} {input : Input}
    (hround2 : ∀ psbt, input.request ≠ .getRound2SigningPackage psbt) :
    config.signStep node (.request input) =
      config.resume node.flights (fun reply => (some reply, node.flights))
        (input.request.serve config input.bitcoind input.fuel ⟨node.server, 0⟩) := by
  obtain ⟨request, bitcoind, fuel⟩ := input
  cases request with
  | getRound2SigningPackage psbt => exact absurd rfl (hround2 psbt)
  | _ => rfl

theorem sum_eraseIdx {flights : List Flight} {k : Nat} {flight : Flight}
    (h : flights[k]? = some flight) (pair : NoncePair) :
    (flights.map (·.nonces.count pair)).sum =
      flight.nonces.count pair + ((flights.eraseIdx k).map (·.nonces.count pair)).sum := by
  obtain ⟨hk, rfl⟩ := List.getElem?_eq_some_iff.mp h
  have hperm := (getElem_cons_eraseIdx_perm hk).map fun f : Flight => f.nonces.count pair
  rw [← hperm.sum_eq, map_cons, sum_cons]

/-- An event moves pairs: what it releases and what the node holds after it, the node held
before or has drawn. -/
def Balanced (config : Config) (node : SigningNode) (event : SigningEvent) : Prop :=
  ∀ pair, (config.signStep node event).2.held pair +
      (usedPairs (fire config.signStep node event)).count pair ≤
    node.held pair + (drawnPairs (fire config.signStep node event)).count pair

theorem balanced_beginRound2 (node : SigningNode) (psbt : Psbt) (bitcoind : Bitcoind) (fuel : Nat) :
    Balanced config node (.request ⟨.getRound2SigningPackage psbt, bitcoind, fuel⟩) := by
  intro pair
  obtain ⟨flight, e, h, -, hslot, hempty⟩ | ⟨err, e, h, hslot⟩ | ⟨db, h⟩ :=
    resume_cases config node.flights (fun flight => (none, node.flights ++ [flight]))
      (beginRound2_slot config node.server psbt)
  all_goals simp only [fire, Config.signStep, h, usedPairs, releasedFlight, drawnPairs]
  · simp [SigningNode.held, hslot, hempty]
    omega
  · simp [SigningNode.held, hslot]
  · exact Nat.zero_le _

theorem balanced_request (node : SigningNode) {input : Input}
    (hround2 : ∀ psbt, input.request ≠ .getRound2SigningPackage psbt) :
    Balanced config node (.request input) := by
  intro pair
  obtain ⟨reply, e, h, hslot⟩ | ⟨err, e, h, hslot⟩ | ⟨db, h⟩ :=
    resume_cases config node.flights (fun reply => (some reply, node.flights))
      (serve_slot config node.server input hround2)
  all_goals
    simp only [fire, signStep_request hround2, h, usedPairs, releasedFlight, drawnPairs]
  · have := hslot pair
    simp [SigningNode.held]
    omega
  · simp [SigningNode.held, hslot]
  · exact Nat.zero_le _

theorem balanced_finish (node : SigningNode) (k : Nat) (bitcoind : Bitcoind) :
    Balanced config node (.finish k bitcoind) := by
  intro pair
  cases hk : node.flights[k]? with
  | none =>
    simp [fire, Config.signStep, hk, usedPairs, releasedFlight, drawnPairs]
  | some flight =>
    have hkeeps : Triple (· = ⟨node.server, 0⟩) (finishRound2 config bitcoind flight)
        (fun _ e => e.server.slot = node.server.slot)
        fun e => e.server.slot = node.server.slot := by
      refine Triple.bind ((trackSigned_nonces config ⟨.abortSigning, bitcoind, 0⟩ flight.signed
        node.server.frostRound1Nonces).conseq (fun _ h => by rw [h]) (fun _ _ h => h) fun _ h => ?_)
        fun _ => Triple.pure fun _ h => ?_
      · rw [Server.slot, h]
        rfl
      · rw [Server.slot, h]
        rfl
    have hsum := sum_eraseIdx hk pair
    obtain ⟨reply, e, h, hslot⟩ | ⟨err, e, h, hslot⟩ | ⟨db, h⟩ :=
      resume_cases config (node.flights.eraseIdx k)
        (fun reply => (some reply, node.flights.eraseIdx k)) hkeeps
    all_goals simp only [fire, Config.signStep, hk, h, usedPairs, releasedFlight, drawnPairs]
    · simp [SigningNode.held, hslot, hsum]
      omega
    · simp [SigningNode.held, hslot, hsum]
    · exact Nat.zero_le _

theorem balanced_step (config : Config) (node : SigningNode) :
    ∀ event, Balanced config node event
  | .finish k bitcoind => balanced_finish node k bitcoind
  | .request ⟨request, bitcoind, fuel⟩ => by
    by_cases hround2 : ∃ psbt, request = .getRound2SigningPackage psbt
    · obtain ⟨psbt, rfl⟩ := hround2
      exact balanced_beginRound2 node psbt bitcoind fuel
    · exact balanced_request node fun psbt h => hround2 ⟨psbt, h⟩

/-- Every response in flight was made with its own pairs. -/
theorem madeWith_step {node : SigningNode} (hmade : ∀ f ∈ node.flights, f.MadeWith config) :
    ∀ event, ∀ f ∈ (config.signStep node event).2.flights, f.MadeWith config
  | .finish k bitcoind => by
    have hrest : ∀ f ∈ node.flights.eraseIdx k, f.MadeWith config := fun f hf =>
      hmade f (mem_of_mem_eraseIdx hf)
    cases hk : node.flights[k]? with
    | none =>
      simp only [Config.signStep, hk]
      exact hmade
    | some flight =>
      simp only [Config.signStep, hk]
      rcases finishRound2 config bitcoind flight ⟨node.server, 0⟩ with ⟨_ | _ | _, e⟩
      · exact hrest
      · exact hrest
      · exact forall_mem_nil _
  | .request ⟨request, bitcoind, fuel⟩ => by
    by_cases hround2 : ∃ psbt, request = .getRound2SigningPackage psbt
    · obtain ⟨psbt, rfl⟩ := hround2
      obtain ⟨flight, e, h, hflight, -⟩ | ⟨err, e, h, -⟩ | ⟨db, h⟩ :=
        resume_cases config node.flights (fun flight => (none, node.flights ++ [flight]))
          (beginRound2_slot config node.server psbt)
      all_goals simp only [Config.signStep, h]
      · simpa [or_imp, forall_and] using ⟨hmade, hflight⟩
      · exact hmade
      · exact forall_mem_nil _
    · rw [signStep_request fun psbt h => hround2 ⟨psbt, h⟩]
      rcases request.serve config bitcoind fuel ⟨node.server, 0⟩ with ⟨_ | _ | _, e⟩
      · exact hmade
      · exact hmade
      · exact forall_mem_nil _

end step

/-! ## Runs -/

/-- In every run, overlapping requests, aborts and restarts included: a released response
holds shares made with the pairs it had taken from the slot, and shares made with a pair are
released at most as often as the pair was generated, so once. -/
theorem nonces_used_once (config : Config) (db : Db) {h : SigningHistory} {node : SigningNode}
    (hrun : Run config.signStep ⟨config.start db, []⟩ h node) :
    (∀ t ∈ h, ∀ flight, releasedFlight t = some flight → flight.MadeWith config) ∧
      ∀ pair, uses pair h ≤ draws pair h := by
  suffices (∀ t ∈ h, ∀ flight, releasedFlight t = some flight → flight.MadeWith config) ∧
      (∀ f ∈ node.flights, f.MadeWith config) ∧
      ∀ pair, node.held pair + uses pair h ≤ draws pair h by
    refine ⟨this.1, fun pair => ?_⟩
    have := this.2.2 pair
    omega
  induction hrun with
  | start => simp [SigningNode.held, Server.slot, Config.start, uses, draws]
  | @next h node event hrun ih =>
    obtain ⟨hreleased, hflights, hheld⟩ := ih
    refine ⟨?_, madeWith_step hflights event, fun pair => ?_⟩
    · rw [forall_mem_cons]
      refine ⟨fun flight hflight => ?_, hreleased⟩
      exact hflights flight (mem_flights_of_releasedFlight hflight)
    · have hbalanced := balanced_step config node event pair
      have := hheld pair
      simp only [uses, draws, map_cons, sum_cons] at this ⊢
      omega

/-- Round one and round two for the same payment; a second request for round two comes while
the first is not answered yet. -/
def overlappingRequests : List SigningEvent :=
  [.finish 0 unreachable,
    .request ⟨.getRound2SigningPackage (committedPsbt firstCoin 10), unreachable, 0⟩,
    .request ⟨.getRound2SigningPackage (committedPsbt firstCoin 10), unreachable, 0⟩,
    .request ⟨.getRound1SigningPackage (paymentPsbt firstCoin []) fun _ => noncePair 10,
      unreachable, 0⟩]

/-- The run on these events. -/
def overlappingRun : SigningHistory × SigningNode :=
  play firstSigner.signStep ⟨firstSigner.start freshDb, []⟩ overlappingRequests

/-- One share is released, made with the one pair that was drawn. -/
theorem pair_used_once :
    uses (noncePair 10) overlappingRun.1 = 1 ∧
    (∀ t ∈ overlappingRun.1, ∀ flight, releasedFlight t = some flight →
      flight.MadeWith firstSigner) ∧
    ∀ pair, uses pair overlappingRun.1 ≤ draws pair overlappingRun.1 :=
  ⟨by decide +kernel, nonces_used_once firstSigner freshDb (Run.play overlappingRequests)⟩

end Macbeth
