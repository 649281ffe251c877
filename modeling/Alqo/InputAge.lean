import Alqo.Coins
import Alqo.Lib.Runs

/-!
# The age of a collateral (masternode.h, main.cpp)

A masternode keeps the first age that is not zero with the height it was taken at, and counts on
from there.
-/

namespace Alqo
open Lib.Runs

structure AgeState where
  /-- the coins after each block above the genesis block, those of the tip first -/
  chain : List CoinsMap := []
  mempool : uint256 → Bool := fun _ => false
  cacheInputAge : Int := 0
  cacheInputAgeBlock : Int := 0

inductive AgeEvent where
  | connect (coins : CoinsMap)
  | disconnect
  | mempool (mempool : uint256 → Bool)
  | query

namespace AgeState

def MEMPOOL_HEIGHT : Nat := 0x7fffffff

section
variable (txid : uint256) (s : AgeState)

def pcoinsTip : CoinsMap := s.chain.headD fun _ => none

/-- `chainActive.Tip()->nHeight` -/
def tipHeight : Int := s.chain.length

/- With the view that has the memory pool over the coins of the tip -/
def getInputAge : Int :=
  if s.mempool txid then s.tipHeight + 1 - MEMPOOL_HEIGHT
  else
    match s.pcoinsTip txid with
    | some c => s.tipHeight + 1 - c.coins.nHeight
    | none => -1

def fillCache : AgeState :=
  if s.cacheInputAge = 0 then
    { s with cacheInputAge := s.getInputAge txid, cacheInputAgeBlock := s.tipHeight }
  else s

/- `fillCache` is the masternode afterwards. -/
def getMasternodeInputAge : Int :=
  (s.fillCache txid).cacheInputAge + (s.tipHeight - (s.fillCache txid).cacheInputAgeBlock)

def step : AgeEvent → AgeState
  | .connect coins => { s with chain := coins :: s.chain }
  | .disconnect => { s with chain := s.chain.tail }
  | .mempool mempool => { s with mempool := mempool }
  | .query => s.fillCache txid

/-- The collateral is confirmed and not spent. -/
def InChain : Prop := (s.pcoinsTip txid).isSome = true

/-- The height that the age counts from. -/
def origin : Int := s.tipHeight + 1 - s.getInputAge txid

end

variable {txid : uint256} {s : AgeState}

theorem step_cache (h : s.cacheInputAge ≠ 0) (e : AgeEvent) :
    (s.step txid e).cacheInputAge = s.cacheInputAge ∧
      (s.step txid e).cacheInputAgeBlock = s.cacheInputAgeBlock := by
  cases e with
  | query => simp [step, fillCache, h]
  | _ => exact ⟨rfl, rfl⟩

/-- The first age that is not zero stays. -/
theorem run_cache (h : s.cacheInputAge ≠ 0) (events : List AgeEvent) :
    (run (step txid) s events).cacheInputAge = s.cacheInputAge ∧
      (run (step txid) s events).cacheInputAgeBlock = s.cacheInputAgeBlock := by
  induction events generalizing s with
  | nil => exact ⟨rfl, rfl⟩
  | cons e events ih =>
    obtain ⟨hage, hblock⟩ := step_cache h e
    obtain ⟨hage', hblock'⟩ := ih (s := s.step txid e) (by rwa [hage])
    exact ⟨hage'.trans hage, hblock'.trans hblock⟩

theorem getMasternodeInputAge_of_filled (hempty : s.cacheInputAge = 0)
    (hage : s.getInputAge txid ≠ 0) (events : List AgeEvent) :
    let t := run (step txid) (s.fillCache txid) events
    t.getMasternodeInputAge txid = t.getInputAge txid ↔ t.origin txid = s.origin txid := by
  have hfill : s.fillCache txid = { s with
      cacheInputAge := s.getInputAge txid, cacheInputAgeBlock := s.tipHeight } := if_pos hempty
  obtain ⟨hc, hb⟩ := run_cache (s := s.fillCache txid) (by rwa [hfill]) events
  rw [hfill] at hc hb ⊢
  intro t
  have ht : t.fillCache txid = t := if_neg (by rwa [hc])
  rw [getMasternodeInputAge, ht, hc, hb, origin, origin]
  dsimp only
  omega

theorem exists_filled {events : List AgeEvent}
    (h : (run (step txid) {} events).cacheInputAge ≠ 0) :
    ∃ pre mid, events = pre ++ .query :: mid ∧ (run (step txid) {} pre).cacheInputAge = 0 ∧
      (run (step txid) {} pre).getInputAge txid ≠ 0 := by
  induction events using List.reverseRecOn with
  | nil => exact absurd rfl h
  | append_singleton events e ih =>
    by_cases hempty : (run (step txid) {} events).cacheInputAge = 0
    · rw [run_concat] at h
      cases e with
      | query =>
        refine ⟨events, [], rfl, hempty, ?_⟩
        rwa [step, fillCache, if_pos hempty] at h
      | _ => exact absurd hempty h
    · obtain ⟨pre, mid, rfl, hpre⟩ := ih hempty
      exact ⟨pre, mid ++ [e], by simp, hpre⟩

/-- The age is right whenever it is asked for and the collateral is there, exactly if the collateral
then has the height that the first age other than zero was counted from. -/
theorem inputAge_right_iff (txid : uint256) (events : List AgeEvent) :
    (∀ pre post, events = pre ++ .query :: post →
      let s := run (step txid) {} pre
      s.InChain txid → s.getMasternodeInputAge txid = s.getInputAge txid) ↔
    ∀ pre mid post, events = pre ++ .query :: (mid ++ .query :: post) →
      let s := run (step txid) {} pre
      let t := run (step txid) {} (pre ++ .query :: mid)
      s.cacheInputAge = 0 → s.getInputAge txid ≠ 0 → t.InChain txid →
        t.origin txid = s.origin txid := by
  constructor
  · intro h pre mid post hevents s t hempty hage hin
    have ht : t = run (step txid) (s.fillCache txid) mid := run_append ..
    rw [ht]
    refine (getMasternodeInputAge_of_filled hempty hage mid).mp ?_
    rw [← ht]
    exact h (pre ++ .query :: mid) post (by simpa using hevents) hin
  · intro h pre post hevents s hin
    by_cases hempty : s.cacheInputAge = 0
    · rw [getMasternodeInputAge, fillCache, if_pos hempty]
      exact (congrArg _ (Int.sub_self _)).trans (Int.add_zero _)
    · obtain ⟨pre, mid, rfl, hnone, hage⟩ := exists_filled hempty
      have hs : s = run (step txid) ((run (step txid) {} pre).fillCache txid) mid := run_append ..
      rw [hs]
      refine (getMasternodeInputAge_of_filled hnone hage mid).mpr ?_
      rw [← hs]
      exact h pre mid post (by simpa using hevents) hnone hage hin

def collateralAt (nHeight : Nat) : CoinsMap := fun txid =>
  if txid = 7 then (CCoins.fromTx { hash := 7, vin := [], vout := [⟨COIN, [0x51], -10⟩] } nHeight).store
  else none

/-- Asked before the collateral is confirmed, and asked before it moves up by a reorganisation. -/
theorem early_query_wrong :
    let early := run (step 7) {} [.query, .connect (collateralAt 1)]
    let moved := run (step 7) {} [.connect (collateralAt 1), .query, .disconnect,
      .connect fun _ => none, .connect (collateralAt 2)]
    (early.InChain 7 ∧ early.getMasternodeInputAge 7 = 0 ∧ early.getInputAge 7 = 1) ∧
      moved.InChain 7 ∧ moved.getMasternodeInputAge 7 = 2 ∧ moved.getInputAge 7 = 1 := by
  exact ⟨⟨rfl, rfl, rfl⟩, rfl, rfl, rfl⟩

end AgeState

end Alqo
