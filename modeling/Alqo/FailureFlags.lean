import Alqo.IndexRuns

/-!
# Failure marks (main.cpp, chain.h)

Every event sets marks only on top of a failed block. `ReconsiderBlock` takes marks away from the
ancestors and descendants of its block, but not from blocks that stand on those ancestors beside it.
-/

namespace Alqo.ChainIndex
open Lib.Branches Lib.Runs

variable {env : ChainEnv} {s t : ChainIndex} {x pindex hash : uint256} {e : IndexEvent}
  {l : List uint256} {verdict : uint256 → ConnectVerdict} {block : CBlock} {pos : CDiskBlockPos}

def Grounded (s : ChainIndex) : Prop :=
  ∀ h ∈ s.mapBlockIndex, (s.status h).failed = true →
    ∃ a ∈ s.branch h, (s.status a).fFailedValid = true

def NoStrayMark (s : ChainIndex) : Prop :=
  ∀ h ∈ s.mapBlockIndex, (∀ a ∈ s.branch h, (s.status a).fFailedValid = false) →
    (s.status h).failed = false

instance decidableGrounded (s : ChainIndex) : Decidable s.Grounded :=
  decidable_of_iff ((s.mapBlockIndex.keys.all fun h =>
      !(s.status h).failed || (s.branch h).any fun a => (s.status a).fFailedValid) = true) (by
    simp only [List.all_eq_true, Bool.or_eq_true, Bool.not_eq_true', List.any_eq_true, Grounded,
      ← AList.mem_keys, ← Bool.not_eq_true, ← imp_iff_not_or])

def ReconsiderClears (s : ChainIndex) (pindex : uint256) : Prop :=
  ∀ h ∈ s.mapBlockIndex, (s.status h).failed = true → pindex ∉ s.branch h → h ∉ s.branch pindex →
    ∃ a ∈ s.branch h, (s.status a).fFailedValid = true ∧ a ∉ s.branch pindex

theorem Grounded.noStrayMark (h : s.Grounded) : s.NoStrayMark := by
  intro x hx hfree
  by_contra hfailed
  obtain ⟨a, ha, hav⟩ := h x hx (by simpa using hfailed)
  rw [hfree a ha] at hav
  cases hav

theorem failed_markFailedValid (st : BlockStatus) : st.markFailedValid.failed = true := by
  simp [BlockStatus.markFailedValid, BlockStatus.failed]

theorem Grounded.mark (hg : s.Grounded) (same : SameTree s t)
    (hkeep : ∀ h, (s.status h).fFailedValid = true → (t.status h).fFailedValid = true)
    (hnew : ∀ h, (t.status h).failed = true → (s.status h).failed = true ∨
      ∃ a ∈ s.branch h, (t.status a).fFailedValid = true) : t.Grounded := by
  intro h hh hfailed
  rw [same.branch]
  rcases hnew h hfailed with hold | hbelow
  · obtain ⟨a, ha, hav⟩ := hg h ((same.mem h).mp hh) hold
    exact ⟨a, ha, hkeep a hav⟩
  · exact hbelow

theorem Grounded.markInvalid (hg : s.Grounded) (hx : x ∈ s.mapBlockIndex) :
    (s.markInvalid x).Grounded := by
  refine hg.mark (sameTree_markInvalid s x) (fun h hv => ?_) fun h hf => ?_
  · rw [status_markInvalid hx]
    split_ifs
    · rfl
    · exact hv
  · by_cases hh : h = x
    · refine .inr ⟨h, s.self_mem h, ?_⟩
      rw [status_markInvalid hx, if_pos hh]
      rfl
    · rw [status_markInvalid hx, if_neg hh] at hf
      exact .inl hf

theorem Grounded.markFailedValid (hg : s.Grounded) (hx : x ∈ s.mapBlockIndex) :
    (s.updateStatus x BlockStatus.markFailedValid).Grounded := hg.markInvalid hx

theorem Grounded.disconnectFailed (hb : s.Base env) (hg : s.Grounded) (hx : x ∈ s.mapBlockIndex)
    (hfailed : (s.status x).failed = true) (hl : ∀ y ∈ l, y ∈ s.mapBlockIndex ∧ x ∈ s.branch y) :
    (l.foldl ChainIndex.disconnectFailed s).Grounded := by
  have hstatus := status_foldl_disconnectFailed fun y hy => (hl y hy).1
  refine hg.mark (sameTree_foldl _ sameTree_disconnectFailed l s) (fun h hv => ?_) fun h hf => ?_
  · rw [hstatus]
    split_ifs
    · exact hv
    · exact hv
  · by_cases hh : h ∈ l
    · obtain ⟨a, ha, hav⟩ := hg x hx hfailed
      refine .inr ⟨a, mem_branch_trans hb.graded ha (hl h hh).2, ?_⟩
      rw [hstatus]
      split_ifs
      · exact hav
      · exact hav
    · rw [hstatus, if_neg hh] at hf
      exact .inl hf

theorem Grounded.of_status (hg : s.Grounded) (same : SameTree s t)
    (hv : ∀ h, (t.status h).fFailedValid = (s.status h).fFailedValid)
    (hf : ∀ h, (t.status h).failed = (s.status h).failed) : t.Grounded :=
  hg.mark same (fun h hh => (hv h).trans hh) fun h hh => .inl ((hf h).symm.trans hh)

theorem Grounded.find {r : Option uint256} (hb : s.Base env) (hg : s.Grounded)
    (h : s.findMostWorkChain env = some (r, t)) : t.Grounded := by
  refine (findMostWorkChain_rule (fun u => u.Base env ∧ u.Grounded) ?_ ⟨hb, hg⟩ h).1.2
  intro u m x rest hu hbest htest
  obtain ⟨hbu, hgu⟩ := hu
  have hd := dropped_of_round hbu hbest htest
  refine ⟨hd.base hbu, ?_⟩
  have hx : x ∈ u.mapBlockIndex := by
    by_contra hno
    have hfailed := hd.failed
    rw [status_of_notMem hno] at hfailed
    cases hfailed
  rw [dropChain_of_failed hd.failed]
  -- the candidates are not read
  exact hgu.disconnectFailed hbu hx hd.failed fun y hy => ⟨hd.known y hy, hd.below y hy⟩

theorem Connected.grounded (h : Connected env x s t) (hg : s.Grounded) :
    t.Grounded := by
  have hmarks : ∀ y, (t.status y).fFailedValid = (s.status y).fFailedValid ∧
      (t.status y).failed = (s.status y).failed := by
    intro y
    rw [h.status]
    by_cases hx : x ∈ s.mapBlockIndex
    · by_cases hy : y = x
      · have hst : (s.connectTip x).status y = BlockStatus.raiseValidity
            { s.status y with fHaveUndo := true } BlockStatus.VALID_SCRIPTS :=
          (status_updateStatus hx).trans (if_pos hy)
        rw [hst, (raiseValidity_marks _ _).1, (raiseValidity_marks _ _).2]
        exact ⟨rfl, rfl⟩
      · have hst : (s.connectTip x).status y = s.status y := status_updateStatus_ne hy
        rw [hst]
        exact ⟨rfl, rfl⟩
    · have hst : (s.connectTip x).status y = s.status y := by
        unfold ChainIndex.connectTip
        rw [updateStatus_of_notMem hx]
        rfl
      rw [hst]
      exact ⟨rfl, rfl⟩
  exact hg.of_status h.sameTree (fun y => (hmarks y).1) fun y => (hmarks y).2

theorem Grounded.cutOff (hb : s.Base env) (hg : s.Grounded) (hx : x ∈ s.mapBlockIndex) :
    (s.cutOff x).Grounded := by
  cases hc : s.contains x with
  | false =>
    rw [cutOff_of_inactive hc]
    exact hg.markInvalid hx
  | true =>
    have same := sameTree_markInvalid s x
    have hfailed : ((s.markInvalid x).status x).failed = true := by
      rw [status_markInvalid hx, if_pos rfl]
      exact failed_markFailedValid _
    have hbx : (s.markInvalid x).Base env := by
      have h := (invalidBlockFound_base hb x false).1
      simpa [invalidBlockFound] using h
    rw [cutOff_of_active hc]
    refine (hg.markInvalid hx).disconnectFailed hbx ((same.mem x).mpr hx) hfailed fun y hy => ?_
    obtain ⟨hyt, hxy⟩ := disconnected_spec hb hc hy
    rw [same.mem, same.branch]
    exact ⟨mem_of_data (hb.tip y hyt).1, hxy⟩

theorem Grounded.invalidateBlock (hb : s.Base env) (hg : s.Grounded) (hx : x ∈ s.mapBlockIndex) :
    (s.invalidateBlock env x).Grounded := by
  unfold ChainIndex.invalidateBlock
  split_ifs
  · exact hg.cutOff hb hx
  · refine (hg.cutOff hb hx).of_status (sameTree_offerAll env _) (fun h => ?_) fun h => ?_
    · rw [(offerAll_keeps env _).2]
    · rw [(offerAll_keeps env _).2]

theorem keptByConnect_grounded : KeptByConnect env Grounded where
  invalid s x corruptionPossible hx hg := by
    unfold invalidBlockFound
    split_ifs
    · exact hg
    · exact hg.markInvalid hx.mem
  choked s x hb hx hg := hg.invalidateBlock hb hx.mem
  valid s t x hc hg := hc.grounded hg

theorem Grounded.activate (hb : s.Base env) (hg : s.Grounded)
    (h : s.activateBestChain env verdict = some t) : t.Grounded :=
  (keptByConnect_grounded.activateBestChain
    (fun s tip hg => hg.of_status (sameTree_tip s tip) (fun _ => rfl) fun _ => rfl)
    (fun _ _ _ hb hf hg => hg.find hb hf) hb hg h).2.2

theorem Grounded.grown {prev : uint256} (hb : s.Base env) (hg : s.Grounded)
    (h : Grown hash prev s t) : t.Grounded := by
  intro x hx hfailed
  rw [h.failed] at hfailed
  have hxs : x ∈ s.mapBlockIndex := by
    by_contra hno
    rw [status_of_notMem hno] at hfailed
    cases hfailed
  obtain ⟨a, ha, hav⟩ := hg x hxs hfailed
  have hne : a ≠ hash := fun he => h.fresh (he ▸ branch_known hb hxs ha)
  refine ⟨a, by rw [h.branch hb hxs]; exact ha, ?_⟩
  rw [h.status_ne hne]
  exact hav

theorem Grounded.stored (hg : s.Grounded) (h : Stored hash s t) :
    t.Grounded := by
  have hmarks : ∀ y, (t.status y).fFailedValid = (s.status y).fFailedValid := by
    intro y
    by_cases hy : y = hash
    · rw [hy, h.status_self, (raiseValidity_marks _ _).1]
    · rw [h.status_ne y hy]
  intro x hx hfailed
  rw [h.failed] at hfailed
  obtain ⟨a, ha, hav⟩ := hg x ((h.mem x).mp hx) hfailed
  exact ⟨a, by rw [h.branch]; exact ha, (hmarks a).trans hav⟩

theorem Grounded.of_map (hg : s.Grounded) (h : t.mapBlockIndex = s.mapBlockIndex) :
    t.Grounded := by
  intro x hx hfailed
  rw [h] at hx
  rw [status_of_map h] at hfailed ⊢
  rw [branch_of_map h]
  exact hg x hx hfailed

theorem Grounded.received (hg : s.Grounded)
    (h : Stored (block.getHash env.Hash) s (s.storeData env block pos)) :
    (s.receivedBlockTransactions env block pos).Grounded := by
  have hgt := hg.stored h
  rcases received_cases (rfl : s.storeData env block pos = _) with ⟨-, heq⟩ | ⟨p, hp, -, heq⟩
  · rw [heq]
    exact hgt.of_map (linkQueue_map env _ _)
  · rw [heq]
    split_ifs
    · refine hgt.of_map ?_
      simp only [addUnlinked, hp]
    · exact hgt

theorem Grounded.bodyChecked (hg : s.Grounded) (h : BodyChecked env block pos s t) :
    t.Grounded := by
  rcases h.outcome with heq | heq
  · rw [heq]
    exact hg.markFailedValid h.known
  · rw [heq]
    exact hg.received (stored_storeData pos h.known h.missing h.unfailed h.vtx)

theorem Reconsidered.grounded_iff (h : Reconsidered env pindex s t) (hb : s.Base env) :
    t.Grounded ↔ s.ReconsiderClears pindex := by
  constructor
  · intro hg x hx hfailed hdown hup
    have hst : t.status x = s.status x := by
      rw [h.status, if_neg (not_or.mpr ⟨hdown, hup⟩)]
    obtain ⟨a, ha, hav⟩ := hg x ((h.sameTree.mem x).mpr hx) (by rw [hst]; exact hfailed)
    rw [h.sameTree.branch] at ha
    rw [h.status] at hav
    split_ifs at hav with hcleared
    · cases hav
    · exact ⟨a, ha, hav, fun hap => hcleared (.inr hap)⟩
  · intro hclears x hx hfailed
    rw [h.status] at hfailed
    split_ifs at hfailed with hcleared
    · cases hfailed
    · obtain ⟨hdown, hup⟩ := not_or.mp hcleared
      obtain ⟨a, ha, hav, hap⟩ := hclears x ((h.sameTree.mem x).mp hx) hfailed hdown hup
      have hdescends : pindex ∉ s.branch a := fun hpa =>
        hdown (mem_branch_trans hb.graded hpa ha)
      refine ⟨a, by rw [h.sameTree.branch]; exact ha, ?_⟩
      rw [h.status, if_neg (not_or.mpr ⟨hdescends, hap⟩)]
      exact hav

theorem handle_reconsiders (h : s.reconsiders env e = some pindex) :
    s.handle env e = some (s.reconsiderBlock env pindex) := by
  cases e with
  | block block checks pos =>
    simp only [reconsiders] at h
    split_ifs at h with hsize hchecked
    have hcheckpoint := h
    unfold checkpointParent at hcheckpoint
    split_ifs at hcheckpoint with hc
    obtain ⟨hgenesis, hknown, hfailed, -⟩ := hc
    show some (s.processNewBlock env block checks pos) = _
    rw [processNewBlock, if_neg hsize, if_neg hchecked]
    simp [acceptBlock, hgenesis, hknown, hfailed, h]
  | reconsider hash =>
    simp only [reconsiders] at h
    split_ifs at h with hmem
    cases h
    show some (if pindex ∈ s.mapBlockIndex then _ else _) = _
    rw [if_pos hmem]
  | header block checks => cases h
  | activate verdict => cases h
  | invalidate hash => cases h

theorem handle_grounded (hb : s.Base env) (hg : s.Grounded) (h : s.handle env e = some t)
    (hnone : s.reconsiders env e = none) : t.Grounded := by
  cases handled h with
  | same => exact hg
  | grown hgrown => exact hg.grown hb hgrown
  | stored _ hu hbody =>
    refine Grounded.bodyChecked ?_ hbody
    rcases hu with rfl | hgrown
    · exact hg
    · exact hg.grown hb hgrown
  | activated hactivate => exact hg.activate hb hactivate
  | invalidated hmem => exact hg.invalidateBlock hb hmem
  | reconsidered hreconsider =>
    rw [hnone] at hreconsider
    cases hreconsider

def ReconsiderOk (env : ChainEnv) (s : ChainIndex) (e : IndexEvent) : Prop :=
  ∀ pindex, s.reconsiders env e = some pindex → s.ReconsiderClears pindex

theorem handle_grounded_iff (hb : s.Base env) (hg : s.Grounded) (h : s.handle env e = some t) :
    t.Grounded ↔ s.ReconsiderOk env e := by
  cases hr : s.reconsiders env e with
  | none =>
    refine iff_of_true (handle_grounded hb hg h hr) fun pindex hp => ?_
    rw [hr] at hp
    cases hp
  | some pindex =>
    have hspec := reconsiderBlock_spec hb (reconsiders_mem hr)
    rw [handle_reconsiders hr] at h
    cases h
    rw [hspec.grounded_iff hb]
    constructor
    · intro hclears q hq
      rw [hr] at hq
      cases hq
      exact hclears
    · intro hok
      exact hok pindex hr

/-- In every run, all marks stay grounded, and no stray mark is left after
`ReconsiderBlock`, exactly if every call of `ReconsiderBlock` finds, for each marked
block beside its own, a failed ancestor that it does not clear. -/
theorem marks_grounded_iff (env : ChainEnv) (pos : CDiskBlockPos) (events : List IndexEvent) :
    (Always (step env) (WhileRunning Grounded) (some (initBlockIndex env pos)) events ∧
      Along (step env) (fun s e => ∀ u t pindex, s = some u → u.reconsiders env e = some pindex →
        step env s e = some t → t.NoStrayMark) (some (initBlockIndex env pos)) events) ↔
    Along (step env) (fun s e => WhileRunning (fun s => s.ReconsiderOk env e) s)
      (some (initBlockIndex env pos)) events := by
  have hgenesis := initBlockIndex_onlyGenesis env pos
  have hfirst : WhileRunning Grounded (some (initBlockIndex env pos)) := by
    intro t ht x hx hfailed
    cases ht
    rw [(hgenesis.known x).mp hx, hgenesis.status] at hfailed
    cases hfailed
  have hstep : ∀ s e, WhileRunning (Base env) s → WhileRunning Grounded s →
      (WhileRunning Grounded (step env s e) ↔ WhileRunning (fun s => s.ReconsiderOk env e) s) := by
    intro s e hb hg
    cases s with
    | none =>
      refine iff_of_true (fun t ht => ?_) fun t ht => ?_
      · cases ht
      · cases ht
    | some u =>
      cases hh : u.handle env e with
      | none =>
        -- only a step of activation stops the node
        refine iff_of_true (fun t ht => ?_) fun t ht pindex hp => ?_
        · rw [show step env (some u) e = none from hh] at ht
          cases ht
        · cases ht
          rw [handle_reconsiders hp] at hh
          cases hh
      | some t =>
        have hiff := handle_grounded_iff (hb u rfl) (hg u rfl) hh
        constructor
        · intro hnext v hv
          cases hv
          exact hiff.mp (hnext t hh)
        · intro hok v hv
          rw [show step env (some u) e = some t from hh] at hv
          cases hv
          exact hiff.mpr (hok u rfl)
  have hiff := always_iff_along (fun s e (h : WhileRunning (Base env) s) => step_base h e) hstep
    (some (initBlockIndex env pos)) events (init_base env pos) hfirst
  rw [← hiff]
  refine ⟨fun h => h.1, fun h => ⟨h, h.next.mono ?_⟩⟩
  intro s e hnext u t pindex hu hp ht
  exact (hnext t ht).noStrayMark

def siblingRun : List IndexEvent :=
  [.block (nonceBlock 0 1 0x1e0fffff 1) {} ⟨0, 300⟩, .activate fun _ => .valid,
    .block (nonceBlock 1 2 0x1e0fffff 1) {} ⟨0, 600⟩, .activate fun _ => .valid,
    .block (nonceBlock 1 3 0x1e0fffff 1) {} ⟨0, 900⟩, .activate fun _ => .valid,
    .invalidate 1, .activate fun _ => .valid, .reconsider 2]

/-- Block 3 stays marked although no block of its branch is failed any more. -/
theorem sibling_staysMarked : ((run (step nonceEnv) nonceGenesis siblingRun).map fun s =>
      ((s.status 3).failed, (s.branch 3).map fun a => (s.status a).fFailedValid)) =
        some (true, [false, false, false]) ∧
    ¬ Always (step nonceEnv) (WhileRunning Grounded) nonceGenesis siblingRun := by
  decide +kernel

end Alqo.ChainIndex
