import Alqo.MasternodeList

/-!
# Runs of the masternode list

Checks, removals and pings keep what is known of an entry; whether a broadcast does is read off the
one entry of the outpoint that it names.
-/

namespace Alqo
open Lib Lib.Runs

def announcedEntry (env : MnEnv) (man : MasternodeMan) : MnEvent → Option CMasternodeEntry
  | .mnb view mnb => (man.step env (.mnb view mnb)).find mnb.vin
  | _ => none

section
variable {env : MnEnv} {man : MasternodeMan} {P : CMasternodeEntry → Prop}

theorem forall_entries_iff (hP : ∀ mn mn', Keeps env mn mn' → P mn → P mn')
    (hunique : Unique man.vMasternodes) (hall : ∀ mn ∈ man.vMasternodes, P mn) (e : MnEvent) :
    (∀ mn ∈ (man.step env e).vMasternodes, P mn) ↔ ∀ mn ∈ announcedEntry env man e, P mn := by
  have hevolves := step_evolves env hunique e
  constructor
  · intro hnext mn hmn
    cases e with
    | mnb view mnb => exact hnext mn (KeyedList.mem_of_find hmn)
    | mnp view mnp => cases hmn
    | check view => cases hmn
    | checkAndRemove view forceExpiredRemoval => cases hmn
    | remove vin => cases hmn
  · intro hannounced mn' hmem
    rcases hevolves.entry mn' hmem with ⟨mn, hold, hk⟩ | ⟨view, mnb, rfl, hann⟩
    · exact hP mn mn' hk (hall mn hold)
    · refine hannounced mn' ?_
      have hfound := KeyedList.find_of_mem (hevolves.unique hunique) hmem
      rw [hann.prevout] at hfound
      exact hfound

theorem entries_always_iff (hP : ∀ mn mn', Keeps env mn mn' → P mn → P mn')
    (events : List MnEvent) :
    Always (MasternodeMan.step env) (fun man => ∀ mn ∈ man.vMasternodes, P mn) {} events ↔
      Along (MasternodeMan.step env) (fun man e => ∀ mn ∈ announcedEntry env man e, P mn) {}
        events := by
  have hbase : ∀ (man : MasternodeMan) (e : MnEvent), Unique man.vMasternodes →
      Unique (man.step env e).vMasternodes := fun man e h => (step_evolves env h e).unique h
  refine always_iff_along hbase
    (fun man e hunique hall => forall_entries_iff hP hunique hall e) {} events ?_ ?_
  · exact List.nodup_nil
  · intro mn hmem
    cases hmem

end

def isCollateral (env : MnEnv) (key : CPubKey) (out : CTxOut) : Bool :=
  decide (out.nValue = env.nMasternodeCollateral) &&
    decide (out.scriptPubKey = getScriptForKeyID (env.getID key))

def ownOutput (env : MnEnv) (mn : CMasternodeEntry) : Bool :=
  ((env.txOf mn.prevout.hash).bind fun tx => tx.vout[mn.prevout.n]?).any
    (isCollateral env mn.pubKeyCollateralAddress)

def someOutput (env : MnEnv) (prevout : COutPoint) (key : CPubKey) : Bool :=
  (env.txOf prevout.hash).any fun tx => tx.vout.any (isCollateral env key)

section
variable {env : MnEnv} {mn mn' : CMasternodeEntry}

theorem ownOutput_keeps (h : Keeps env mn mn') : ownOutput env mn' = ownOutput env mn := by
  rw [ownOutput, ownOutput, h.prevout, h.collateralKey]

theorem someOutput_of_associated {view : MnView} {mnb : CMasternodeBroadcast}
    (h : mnb.isInputAssociatedWithPubkey env view = true) :
    someOutput env mnb.vin.prevout mnb.pubKeyCollateralAddress = true := by
  unfold CMasternodeBroadcast.isInputAssociatedWithPubkey MnEnv.getTransaction at h
  unfold someOutput
  cases htx : env.txOf mnb.vin.prevout.hash with
  | none =>
    rw [htx] at h
    cases h
  | some tx =>
    rw [htx] at h
    cases hblock : view.blockOf mnb.vin.prevout.hash with
    | none =>
      rw [hblock] at h
      cases h
    | some hashBlock =>
      rw [hblock] at h
      exact h

theorem someOutput_step {man : MasternodeMan} (hunique : Unique man.vMasternodes)
    (hall : ∀ mn ∈ man.vMasternodes, someOutput env mn.prevout mn.pubKeyCollateralAddress = true)
    (e : MnEvent) : ∀ mn ∈ (man.step env e).vMasternodes,
      someOutput env mn.prevout mn.pubKeyCollateralAddress = true := by
  intro mn' hmem
  rcases (step_evolves env hunique e).entry mn' hmem with ⟨mn, hold, hk⟩ | ⟨view, mnb, rfl, hann⟩
  · rw [hk.prevout, hk.collateralKey]
    exact hall mn hold
  · rcases hann.collateral with hassociated | ⟨mn, hold, hprevout, hkey⟩
    · rw [hann.prevout, hann.collateralKey]
      exact someOutput_of_associated hassociated
    · rw [← hprevout, ← hkey]
      exact hall mn hold

end

/-- A transaction with a collateral of `collateralKey` as its first output and a larger
payment to someone else as its second. -/
def collateralTx : CTransaction where
  hash := 7
  vin := [{ prevout := ⟨6, 0⟩ }]
  vout := [⟨10000 * COIN, getScriptForKeyID (hashSigned.getID collateralKey), -10⟩,
    ⟨20000 * COIN, [0x51], -10⟩]

def collateralEnv : MnEnv where
  toSigEnv := hashSigned
  fMainNet := true
  nMasternodeCollateral := 10000 * COIN
  txOf hash := if hash = 7 then some collateralTx else none

def confirmedView : MnView where
  nTime := 1575571000
  nAdjustedTime := 1575571000
  nMinProto := 70913
  blockOf hash := if hash = 7 then some 70 else none
  unspent o := if o.hash = 7 then collateralTx.vout[o.n]? else none
  inputAge _ := 100
  blockHeight hash := if hash = 70 then some 500 else none
  nChainHeight := 600
  blockTime _ := 1575500000

end Alqo
