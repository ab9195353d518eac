import Macbeth.BtcServer.Coordinator
import Macbeth.Lib.Loop

/-!
# The retry loop of `make_tx`

`make_tx` builds the PSBT of the pegouts, and while it is too heavy drops the last tenth of
them and tries again.  The tenth is rounded down, so nothing is dropped from fewer than ten
pegouts: the loop then builds the same PSBT for ever.  It comes back exactly for the lists
one of whose attempted prefixes is not too heavy, and for those of one pegout at most.

The loop is given for any behaviour of `attempt_make_tx`; `makeTx_eq_run` says that the
bounded loop of the coordinator's model is this one at the real attempt.
-/

namespace Macbeth

open Outcome Loop List

/-- What `attempt_make_tx` does on a list of pegouts. -/
abbrev Attempt := List (TxOut × PegoutId) → Outcome CoordinatorError Psbt

/-- One round of `make_tx`: its result, or the pegouts of the next round. -/
def makeTxRound (attempt : Attempt) (outputs : List (TxOut × PegoutId)) :
    Outcome CoordinatorError Psbt ⊕ List (TxOut × PegoutId) :=
  match attempt outputs with
  | .ok psbt =>
    match (calculateSignedTxWeight psbt).mapErr CoordinatorError.walletCalculation with
    | .ok weight =>
      if weight.toNat ≤ maxPegoutTxWeight then .inl (.ok psbt)
      else if outputs.length ≤ 1 then .inl (.err .transactionTooLarge)
      else .inr (outputs.take (outputs.length - outputs.length / 10))
    | .err e => .inl (.err e)
    | .panic => .inl .panic
  | .err e => .inl (.err e)
  | .panic => .inl .panic

/-- The weight of the PSBT once signed is above the limit. -/
def Psbt.TooHeavy (psbt : Psbt) : Prop :=
  ∃ weight, calculateSignedTxWeight psbt = .ok weight ∧ maxPegoutTxWeight < weight.toNat

/-- The attempt on these pegouts succeeds, with a PSBT that is too heavy. -/
def Attempt.Heavy (attempt : Attempt) (outputs : List (TxOut × PegoutId)) : Prop :=
  ∃ psbt, attempt outputs = .ok psbt ∧ psbt.TooHeavy

/-- The numbers of pegouts that are attempted one after the other, as long as every attempt
is too heavy; from nine pegouts on the number stays as it is. -/
def attemptedLengths (n : Nat) : List Nat :=
  n :: if 10 ≤ n then attemptedLengths (n - n / 10) else []
termination_by n

theorem le_of_mem_attemptedLengths {n m : Nat} (h : m ∈ attemptedLengths n) : m ≤ n := by
  induction n using attemptedLengths.induct with
  | case1 n ih =>
    rw [attemptedLengths] at h
    obtain rfl | h := mem_cons.mp h
    · exact le_rfl
    · split at h
      · rename_i hn
        have := ih hn h
        omega
      · simp at h

/-! ## One round -/

section round
variable {attempt : Attempt} {outputs rest : List (TxOut × PegoutId)}

theorem calculateSignedTxWeight_ne_panic (psbt : Psbt) : calculateSignedTxWeight psbt ≠ .panic :=
  bind_ne_panic ofOption_ne_panic fun _ _ => ofOption_ne_panic

/-- The loop goes round again just for a PSBT of several pegouts that is too heavy. -/
theorem makeTxRound_eq_inr : makeTxRound attempt outputs = .inr rest ↔
    attempt.Heavy outputs ∧ 2 ≤ outputs.length ∧
      rest = outputs.take (outputs.length - outputs.length / 10) := by
  cases hattempt : attempt outputs with
  | err e => simp [makeTxRound, hattempt, Attempt.Heavy]
  | panic => simp [makeTxRound, hattempt, Attempt.Heavy]
  | ok psbt =>
    cases hweight : calculateSignedTxWeight psbt with
    | err e => simp [makeTxRound, hattempt, hweight, mapErr, Attempt.Heavy, Psbt.TooHeavy]
    | panic => exact absurd hweight (calculateSignedTxWeight_ne_panic psbt)
    | ok weight =>
      by_cases hlimit : weight.toNat ≤ maxPegoutTxWeight
      · simp [makeTxRound, hattempt, hweight, mapErr, Attempt.Heavy, Psbt.TooHeavy, hlimit]
      · by_cases hlength : outputs.length ≤ 1
        · simp [makeTxRound, hattempt, hweight, mapErr, hlimit, hlength]
        · have hheavy : attempt.Heavy outputs :=
            ⟨psbt, hattempt, weight, hweight, Nat.lt_of_not_le hlimit⟩
          simp [makeTxRound, hattempt, hweight, mapErr, hlimit, hlength, hheavy, eq_comm]
          omega

/-- A loop that is left gives a PSBT within the limit, or an error; it panics only where the
attempt does. -/
theorem makeTxRound_eq_inl {result : Outcome CoordinatorError Psbt}
    (h : makeTxRound attempt outputs = .inl result) :
    (∃ psbt weight, result = .ok psbt ∧ calculateSignedTxWeight psbt = .ok weight ∧
      weight.toNat ≤ maxPegoutTxWeight) ∨ (∃ e, result = .err e) ∨
      (result = .panic ∧ attempt outputs = .panic) := by
  cases hattempt : attempt outputs with
  | err e =>
    simp only [makeTxRound, hattempt, Sum.inl.injEq] at h
    exact .inr (.inl ⟨e, h.symm⟩)
  | panic =>
    simp only [makeTxRound, hattempt, Sum.inl.injEq] at h
    exact .inr (.inr ⟨h.symm, rfl⟩)
  | ok psbt =>
    cases hweight : calculateSignedTxWeight psbt with
    | err e =>
      simp only [makeTxRound, hattempt, hweight, mapErr, Sum.inl.injEq] at h
      exact .inr (.inl ⟨_, h.symm⟩)
    | panic => exact absurd hweight (calculateSignedTxWeight_ne_panic psbt)
    | ok weight =>
      simp only [makeTxRound, hattempt, hweight, mapErr] at h
      split at h
      · rename_i hlimit
        exact .inl ⟨psbt, weight, (Sum.inl.inj h).symm, hweight, hlimit⟩
      · split at h
        · exact .inr (.inl ⟨_, (Sum.inl.inj h).symm⟩)
        · simp at h

end round

/-! ## The loop -/

section loop
variable (attempt : Attempt) (outputs : List (TxOut × PegoutId))

/-- Some attempt on the way down is not too heavy: it fails or is within the limit. -/
def SomeFits (attempt : Attempt) (outputs : List (TxOut × PegoutId)) : Prop :=
  ∃ n ∈ attemptedLengths outputs.length, ¬ attempt.Heavy (outputs.take n)

variable {attempt outputs}

/-- The prefixes attempted after the first one are those of what is left of the list. -/
theorem someFits_take (hheavy : attempt.Heavy outputs) (hlength : 10 ≤ outputs.length) :
    SomeFits attempt outputs ↔
      SomeFits attempt (outputs.take (outputs.length - outputs.length / 10)) := by
  have htail : ∀ n ∈ attemptedLengths (outputs.length - outputs.length / 10),
      (outputs.take (outputs.length - outputs.length / 10)).take n = outputs.take n := by
    intro n hn
    rw [take_take, min_eq_left (le_of_mem_attemptedLengths hn)]
  have hmin : min (outputs.length - outputs.length / 10) outputs.length =
      outputs.length - outputs.length / 10 := min_eq_left (Nat.sub_le _ _)
  rw [SomeFits, SomeFits, attemptedLengths, if_pos hlength, length_take, hmin]
  simp only [mem_cons, exists_eq_or_imp, take_length, hheavy, not_true_eq_false,
    false_or]
  exact exists_congr fun n => and_congr_right fun hn => by rw [htail n hn]

theorem not_someFits (hheavy : attempt.Heavy outputs) (hlength : outputs.length < 10) :
    ¬ SomeFits attempt outputs := by
  rw [SomeFits, attemptedLengths, if_neg (by omega)]
  simp [hheavy]

theorem someFits_of_not_heavy (h : ¬ attempt.Heavy outputs) : SomeFits attempt outputs :=
  ⟨outputs.length, by rw [attemptedLengths]; exact mem_cons_self, by rwa [take_length]⟩

-- The length decreases as long as it is at least ten; below, a heavy attempt is repeated.
theorem halts_makeTxRound_iff : Halts (makeTxRound attempt) outputs ↔
    outputs.length ≤ 1 ∨ SomeFits attempt outputs := by
  induction hn : outputs.length using Nat.strong_induction_on generalizing outputs with
  | _ n ih =>
    cases hround : makeTxRound attempt outputs with
    | inl result =>
      refine iff_of_true (halts_of_leaves hround) ?_
      by_contra hnot
      obtain ⟨hlength, hfits⟩ := not_or.mp hnot
      have hheavy : attempt.Heavy outputs := by
        by_contra h
        exact hfits (someFits_of_not_heavy h)
      have hagain := makeTxRound_eq_inr.mpr ⟨hheavy, by omega, rfl⟩
      simp [hround] at hagain
    | inr rest =>
      obtain ⟨hheavy, hlength, hrest⟩ := makeTxRound_eq_inr.mp hround
      by_cases hten : 10 ≤ outputs.length
      · have hlen : rest.length = outputs.length - outputs.length / 10 := by
          rw [hrest, length_take]
          omega
        have hmany : ¬ rest.length ≤ 1 ∧ ¬ n ≤ 1 := by omega
        rw [halts_iff_of_again hround, ih rest.length (by omega) rfl, someFits_take hheavy hten,
          ← hrest]
        simp [hmany.1, hmany.2]
      · have hsame : rest = outputs := by
          rw [hrest, Nat.div_eq_of_lt (by omega), Nat.sub_zero, take_length]
        rw [hsame] at hround
        refine iff_of_false (not_halts_of_fixed hround) ?_
        rw [not_or]
        exact ⟨by omega, not_someFits hheavy (by omega)⟩

/-- What the loop returns after any number of rounds. -/
theorem result_of_run_makeTxRound {fuel : Nat} {result : Outcome CoordinatorError Psbt}
    (h : run (makeTxRound attempt) fuel outputs = some result) :
    (∃ psbt weight, result = .ok psbt ∧ calculateSignedTxWeight psbt = .ok weight ∧
      weight.toNat ≤ maxPegoutTxWeight) ∨ (∃ e, result = .err e) ∨
      (result = .panic ∧ ∃ n, attempt (outputs.take n) = .panic) := by
  have hagain : ∀ s s', (∃ n, s = outputs.take n) → makeTxRound attempt s = .inr s' →
      ∃ n, s' = outputs.take n := by
    intro s s' hs hround
    obtain ⟨n, hn⟩ := hs
    obtain ⟨-, -, hrest⟩ := makeTxRound_eq_inr.mp hround
    exact ⟨min (s.length - s.length / 10) n, by rw [hrest, hn, take_take]⟩
  obtain ⟨s, hs, hleft⟩ := exists_of_run hagain ⟨outputs.length, by simp⟩ h
  obtain ⟨n, hn⟩ := hs
  obtain hok | herr | ⟨hpanic, hattempt⟩ := makeTxRound_eq_inl hleft
  · exact .inl hok
  · exact .inr (.inl herr)
  · exact .inr (.inr ⟨hpanic, n, by rwa [← hn]⟩)

end loop

/-! ## The coordinator's loop -/

section coordinator
variable (btc : BitcoinLib) (lib : SigningLib) (minSigners : Nat) (config : MakeTxConfig)
  (feeRate : FeeRate) (script : ScriptBuf) (trackedTxs : List Tx)

/-- What `attempt_make_tx` answers over the tables. -/
def dbAttempt (db : Db) : Attempt := fun outputs =>
  (attemptMakeTx btc lib minSigners config outputs feeRate script trackedTxs db).1

/-- The coordinator's `make_tx` is the loop: an attempt leaves the tables as they are. -/
theorem makeTx_eq_run (db : Db) : ∀ (fuel : Nat) (outputs : List (TxOut × PegoutId)),
    (makeTx btc lib minSigners config feeRate script trackedTxs fuel outputs db).1 =
      (run (makeTxRound (dbAttempt btc lib minSigners config feeRate script trackedTxs db)) fuel
        outputs).getD .panic
  | 0, _ => rfl
  | fuel + 1, outputs => by
    have hspec : Handler.Triple (· = db)
        (attemptMakeTx btc lib minSigners config outputs feeRate script trackedTxs)
        (fun _ db' => db' = db) db.AfterCheck :=
      attemptMakeTx_spec config outputs feeRate script trackedTxs
    have ih := makeTx_eq_run db fuel (outputs.take (outputs.length - outputs.length / 10))
    rw [makeTx, Handler.bind_run, run, makeTxRound, dbAttempt]
    cases hrun : attemptMakeTx btc lib minSigners config outputs feeRate script trackedTxs db with
    | mk result db' =>
      cases result with
      | err e => rfl
      | panic => rfl
      | ok psbt =>
        have hdb : db' = db := hspec.of_run rfl hrun
        subst hdb
        dsimp only
        rw [Handler.bind_run, Handler.lift_run]
        cases (calculateSignedTxWeight psbt).mapErr CoordinatorError.walletCalculation with
        | err e => rfl
        | panic => rfl
        | ok weight =>
          dsimp only
          split
          · rfl
          · split
            · rfl
            · exact ih

end coordinator

/-! ## When `make_tx` terminates -/

/-- For every behaviour of the attempts, the loop returns exactly when there is at most one
pegout or some attempted prefix is not too heavy, and what it returns is a PSBT within the
limit or an error, unless an attempt panics. -/
theorem makeTxRound_terminates_iff (attempt : Attempt) (outputs : List (TxOut × PegoutId)) :
    (Halts (makeTxRound attempt) outputs ↔ outputs.length ≤ 1 ∨ SomeFits attempt outputs) ∧
      ∀ fuel result, run (makeTxRound attempt) fuel outputs = some result →
        (∃ psbt weight, result = .ok psbt ∧ calculateSignedTxWeight psbt = .ok weight ∧
          weight.toNat ≤ maxPegoutTxWeight) ∨ (∃ e, result = .err e) ∨
          (result = .panic ∧ ∃ n, attempt (outputs.take n) = .panic) :=
  ⟨halts_makeTxRound_iff, fun _ _ => result_of_run_makeTxRound⟩

/-- A PSBT of many inputs: its signatures alone weigh more than the limit. -/
def heavyPsbt : Psbt := ⟨⟨2, 0, [], []⟩, List.replicate 800 .empty, []⟩

/-- Two pegouts of a million satoshis. -/
def twoPegouts : List (TxOut × PegoutId) :=
  [(⟨1000000, [0x51]⟩, ⟨0, 0⟩), (⟨1000000, [0x52]⟩, ⟨0, 1⟩)]

theorem heavyPsbt_tooHeavy : heavyPsbt.TooHeavy := by
  refine ⟨52844, ?_, by decide⟩
  decide +kernel

/-- One pegout that needs that many inputs is refused in the first round. -/
theorem one_heavy_pegout_halts : Halts (makeTxRound fun _ => .ok heavyPsbt) (twoPegouts.take 1) :=
  (makeTxRound_terminates_iff _ _).1.mpr (.inl (by decide))

/-- Two pegouts that need that many inputs are attempted for ever: no tenth of two is
dropped. -/
theorem two_heavy_pegouts_loop :
    ∃ (attempt : Attempt) (outputs : List (TxOut × PegoutId)), outputs.length = 2 ∧
      (∀ attempted, attempt attempted = .ok heavyPsbt) ∧ ¬ Halts (makeTxRound attempt) outputs :=
  have hround : makeTxRound (fun _ => .ok heavyPsbt) twoPegouts = .inr twoPegouts :=
    makeTxRound_eq_inr.mpr ⟨⟨heavyPsbt, rfl, heavyPsbt_tooHeavy⟩, by decide, by decide⟩
  ⟨fun _ => .ok heavyPsbt, twoPegouts, rfl, fun _ => rfl, not_halts_of_fixed hround⟩

end Macbeth
