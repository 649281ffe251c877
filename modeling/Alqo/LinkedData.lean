import Alqo.IndexRuns

/-!
# Stored, linked and waiting blocks (main.cpp, chain.h)

`mapBlocksUnlinked` holds the stored blocks whose branch has a gap. As `nChainTx` is a 32-bit sum,
this needs branches whose number of transactions is no multiple of `2 ^ 32`.
-/

namespace Alqo.ChainIndex
open Lib.Branches Lib.Runs Function List BitVec

variable {env : ChainEnv} {s t : ChainIndex} {h hash x p : uint256} {queue : List uint256}
  {block : CBlock} {pos : CDiskBlockPos} {n : Nat}

def AllData (s : ChainIndex) (h : uint256) : Prop :=
  ∀ a ∈ s.branch h, (s.status a).fHaveData = true

def Waits (s : ChainIndex) (h : uint256) : Prop := ∃ p, (p, h) ∈ s.mapBlocksUnlinked

structure TreeData (s : ChainIndex) : Prop where
  counted : ∀ h ∈ s.mapBlockIndex, s.nTx h ≠ 0 ↔ (s.status h).fHaveData = true
  linked : ∀ h ∈ s.mapBlockIndex, s.nChainTx h ≠ 0 ↔ s.AllData h
  waits : ∀ h ∈ s.mapBlockIndex, s.Waits h ↔
    (s.status h).fHaveData = true ∧ ∃ a ∈ s.branch h, (s.status a).fHaveData = false

def branchTx (s : ChainIndex) (h : uint256) : Nat := ((s.branch h).map s.nTx).sum

def NoWrap (s : ChainIndex) : Prop :=
  ∀ h ∈ s.mapBlockIndex, s.AllData h → s.branchTx h % 2 ^ 32 ≠ 0

def HeadersAgree (env : ChainEnv) (s : ChainIndex) : IndexEvent → Prop
  | .block block _ _ => block.getHash env.Hash ∈ s.mapBlockIndex →
    block.getHash env.Hash ≠ env.hashGenesisBlock →
    s.pprev (block.getHash env.Hash) = some block.hashPrevBlock
  | _ => True

instance decidableNoWrap (s : ChainIndex) : Decidable s.NoWrap :=
  decidable_of_iff ((s.mapBlockIndex.keys.all fun h =>
      !(s.branch h).all (fun a => (s.status a).fHaveData) ||
        decide (s.branchTx h % 2 ^ 32 ≠ 0)) = true) (by
    simp only [List.all_eq_true, Bool.or_eq_true, Bool.not_eq_true', decide_eq_true_eq, NoWrap,
      AllData, ← AList.mem_keys, ← Bool.not_eq_true, ← imp_iff_not_or])

instance decidableHeadersAgree (env : ChainEnv) (s : ChainIndex) :
    (e : IndexEvent) → Decidable (s.HeadersAgree env e)
  | .block _ _ _ => inferInstanceAs (Decidable (_ → _ → _))
  | .header _ _ => isTrue trivial
  | .activate _ => isTrue trivial
  | .invalidate _ => isTrue trivial
  | .reconsider _ => isTrue trivial

structure Links (s : ChainIndex) (queue : List uint256) : Prop where
  exact : ∀ h, s.nChainTx h ≠ 0 → s.nChainTx h = BitVec.ofNat 32 (s.branchTx h)
  placed : ∀ h, (s.status h).fHaveData = true → s.nChainTx h ≠ 0 ∨ h ∈ queue ∨ s.Waits h
  behind : ∀ p c, (p, c) ∈ s.mapBlocksUnlinked → s.nChainTx p = 0

theorem waits_iff_mem : s.Waits h ↔ h ∈ s.mapBlocksUnlinked.map Prod.snd := by
  simp [Waits]

theorem Ready.allData (hr : s.Ready h) : s.AllData h := fun a ha => (hr a ha).1

theorem Links.treeData (hl : s.Links []) (hb : s.Base env) : s.TreeData := by
  have hplaced : ∀ h, (s.status h).fHaveData = true → s.nChainTx h ≠ 0 ∨ s.Waits h := by
    intro h hd
    simpa using hl.placed h hd
  -- from the root up: a complete branch leaves no block behind
  have hall : ∀ h, s.AllData h → s.nChainTx h ≠ 0 := by
    intro h
    induction h using branch_induction hb.graded with
    | step h ih =>
      intro hd
      obtain ⟨hself, hrest⟩ := (forall_branch_iff hb.graded).mp hd
      rcases hplaced h hself with hlinked | ⟨p, hp⟩
      · exact hlinked
      · have hpp := (hb.waiting p h hp).1
        exact absurd (hl.behind p h hp) (ih p hpp (hrest p hpp))
  have hlinked : ∀ h, s.nChainTx h ≠ 0 ↔ s.AllData h := fun h =>
    ⟨fun hne => (hb.linked h hne).allData, hall h⟩
  refine ⟨fun h _ => (hb.counted h).symm, fun h _ => hlinked h, fun h _ => ?_⟩
  constructor
  · intro hw
    obtain ⟨p, hp⟩ := hw
    refine ⟨(hb.waiting p h hp).2, ?_⟩
    by_contra hno
    have hd : s.AllData h := by
      intro a ha
      by_contra hda
      exact hno ⟨a, ha, by simpa using hda⟩
    exact ((hb.linked h (hall h hd)) h (s.self_mem h)).2 (waits_iff_mem.mp ⟨p, hp⟩)
  · intro hgap
    obtain ⟨hself, a, ha, hda⟩ := hgap
    rcases hplaced h hself with hne | hw
    · have := (hlinked h).mp hne a ha
      rw [hda] at this
      cases this
    · exact hw

theorem branchTx_of_root (hp : s.pprev h = none) : s.branchTx h = s.nTx h := by
  simp [branchTx, ChainIndex.branch, branch_of_root hp]

theorem branchTx_of_parent (hg : Graded s.pprev s.nHeight) (hp : s.pprev h = some p) :
    s.branchTx h = s.nTx h + s.branchTx p := by
  simp [branchTx, ChainIndex.branch, branch_of_parent hg hp]

theorem branchTx_congr (hbranch : t.branch h = s.branch h)
    (htx : ∀ a ∈ s.branch h, t.nTx a = s.nTx a) : t.branchTx h = s.branchTx h := by
  unfold branchTx
  rw [hbranch]
  exact congrArg List.sum (map_congr_left htx)

theorem SameTree.branchTx (h : SameTree s t) (x : uint256) : t.branchTx x = s.branchTx x :=
  branchTx_congr (h.branch x) fun a _ => congrFun h.nTx a

theorem SameTree.links (h : SameTree s t) (hl : s.Links queue) : t.Links queue where
  exact x hx := by
    rw [h.nChainTx] at hx ⊢
    rw [h.branchTx]
    exact hl.exact x hx
  placed x hx := by
    rw [h.data] at hx
    unfold Waits
    rw [h.nChainTx, h.unlinked]
    exact hl.placed x hx
  behind p c hpc := by
    rw [h.unlinked] at hpc
    rw [h.nChainTx]
    exact hl.behind p c hpc

theorem Grown.links {prev : uint256} (h : Grown hash prev s t) (hb : s.Base env) (hl : s.Links []) :
    t.Links [] where
  exact x hx := by
    have hne : x ≠ hash := by
      intro he
      simp [he, h.nChainTx] at hx
    rw [h.nChainTx, update_of_ne hne] at hx ⊢
    have hmem := (hb.linked x hx).mem
    rw [branchTx_congr (h.branch hb hmem) fun a _ => h.nTx a]
    exact hl.exact x hx
  placed x hx := by
    rw [h.data] at hx
    have hne : x ≠ hash := fun he => h.fresh (he ▸ mem_of_data hx)
    unfold Waits
    rw [h.nChainTx, update_of_ne hne, h.unlinked]
    exact hl.placed x hx
  behind p c hpc := by
    rw [h.unlinked] at hpc
    have hzero := hl.behind p c hpc
    rw [h.nChainTx]
    by_cases hp : p = hash
    · simp [hp]
    · rw [update_of_ne hp]
      exact hzero

theorem Stored.branchTx (h : Stored hash s t) (hx : s.Ready x) : t.branchTx x = s.branchTx x :=
  branchTx_congr (h.branch x) fun a ha =>
    h.nTx_ne a fun he => h.notMem_branch hx (he ▸ ha)

theorem Stored.links (h : Stored hash s t) (hb : s.Base env) (hl : s.Links []) :
    t.Links [hash] where
  exact x hx := by
    rw [h.nChainTx_eq hb] at hx ⊢
    rw [h.branchTx (hb.linked x hx)]
    exact hl.exact x hx
  placed x hx := by
    unfold Waits
    rw [h.nChainTx_eq hb, h.unlinked]
    rcases (h.data_iff x).mp hx with he | hd
    · exact .inr (.inl (mem_singleton.mpr he))
    · rcases hl.placed x hd with hlinked | hq | hw
      · exact .inl hlinked
      · exact absurd hq not_mem_nil
      · exact .inr (.inr hw)
  behind p c hpc := by
    rw [h.unlinked] at hpc
    rw [h.nChainTx_eq hb]
    exact hl.behind p c hpc

theorem Links.addUnlinked (hl : s.Links [hash]) (hp : s.pprev hash = some p)
    (hzero : s.nChainTx p = 0) : (s.addUnlinked hash).Links [] := by
  have heq : s.addUnlinked hash =
      { s with mapBlocksUnlinked := s.mapBlocksUnlinked ++ [(p, hash)] } := by
    simp only [ChainIndex.addUnlinked, hp]
  rw [heq]
  refine ⟨hl.exact, fun x hx => ?_, fun q c hqc => ?_⟩
  · rcases hl.placed x hx with hlinked | hq | ⟨q, hw⟩
    · exact .inl hlinked
    · rw [mem_singleton.mp hq]
      exact .inr (.inr ⟨p, mem_append_right _ mem_cons_self⟩)
    · exact .inr (.inr ⟨q, mem_append_left _ hw⟩)
  · rcases mem_append.mp hqc with hold | hnew
    · exact hl.behind q c hold
    · rw [mem_singleton] at hnew
      cases hnew
      exact hzero

def ParentLinked (s : ChainIndex) (x : uint256) : Prop :=
  ∀ p, s.pprev x = some p → s.nChainTx p ≠ 0

theorem nChainTxPrev_add (hb : s.Base env) (hl : s.Links queue) (hx : s.ParentLinked x) :
    s.nChainTxPrev x + BitVec.ofNat 32 (s.nTx x) = BitVec.ofNat 32 (s.branchTx x) := by
  unfold nChainTxPrev
  cases hp : s.pprev x with
  | none => simp [branchTx_of_root hp]
  | some p =>
    rw [branchTx_of_parent hb.graded hp]
    simp only [hl.exact p (hx p hp)]
    rw [Nat.add_comm, ofNat_add]

theorem LinkTurn.branchTx (h : LinkTurn env x s t) (y : uint256) : t.branchTx y = s.branchTx y :=
  branchTx_congr (h.branch y) fun a _ => by simp only [ChainIndex.nTx, h.map]

theorem LinkTurn.noWrap (h : LinkTurn env x s t) (hw : s.NoWrap) : t.NoWrap := by
  intro y hy hd
  rw [h.map] at hy
  rw [h.branchTx]
  refine hw y hy fun a ha => ?_
  rw [← h.branch] at ha
  have := hd a ha
  rwa [status_of_map h.map] at this

theorem LinkTurn.nChainTx_self (h : LinkTurn env x s t) (hb : s.Base env) (hl : s.Links queue)
    (hw : s.NoWrap) (hx : s.Ready x) (hparent : s.ParentLinked x) :
    t.nChainTx x = BitVec.ofNat 32 (s.branchTx x) ∧ t.nChainTx x ≠ 0 := by
  have heq : t.nChainTx x = BitVec.ofNat 32 (s.branchTx x) := by
    rw [h.nChainTx, update_self, nChainTxPrev_add hb hl hparent]
  refine ⟨heq, fun hzero => hw x hx.mem hx.allData ?_⟩
  have hnat := congrArg BitVec.toNat (heq.symm.trans hzero)
  simpa using hnat

theorem LinkTurn.links (h : LinkTurn env x s t) (hb : s.Base env) (hl : s.Links (x :: queue))
    (hw : s.NoWrap) (hx : s.Ready x) (hparent : s.ParentLinked x) :
    t.Links (queue ++ s.waitingFor x) := by
  obtain ⟨hself, hne⟩ := h.nChainTx_self hb hl hw hx hparent
  have hother : ∀ y, y ≠ x → t.nChainTx y = s.nChainTx y := fun y hy => by
    rw [h.nChainTx, update_of_ne hy]
  refine ⟨fun y hy => ?_, fun y hy => ?_, fun p c hpc => ?_⟩
  · rw [h.branchTx]
    by_cases hyx : y = x
    · rw [hyx]
      exact hself
    · rw [hother y hyx] at hy ⊢
      exact hl.exact y hy
  · by_cases hyx : y = x
    · rw [hyx]
      exact .inl hne
    · rw [status_of_map h.map] at hy
      rw [hother y hyx]
      rcases hl.placed y hy with hlinked | hq | ⟨p, hp⟩
      · exact .inl hlinked
      · have hyq : y ∈ queue := (mem_cons.mp hq).resolve_left hyx
        exact .inr (.inl (mem_append_left _ hyq))
      · -- what waited for `x` is queued now
        by_cases hpx : p = x
        · rw [hpx] at hp
          exact .inr (.inl (mem_append_right _ (mem_waitingFor.mpr hp)))
        · exact .inr (.inr (waits_iff_mem.mpr (h.waits_iff.mpr ⟨p, hpx, hp⟩)))
  · rw [h.unlinked, mem_filter] at hpc
    have hpx : p ≠ x := by simpa using hpc.2
    rw [hother p hpx]
    exact hl.behind p c hpc.1

theorem linkQueue_links (hb : s.Base env) (hw : s.NoWrap) (hl : s.Links queue)
    (hq : ∀ x ∈ queue, s.Ready x ∧ s.ParentLinked x) :
    (s.linkQueue env queue).Links [] := by
  refine (linkQueue_rule (fun s queue => s.Base env ∧ s.NoWrap ∧ s.Links queue ∧
    ∀ x ∈ queue, s.Ready x ∧ s.ParentLinked x) ?_ ⟨hb, hw, hl, hq⟩).2.2.1
  intro s t x queue hR hturn
  obtain ⟨hb, hw, hl, hq⟩ := hR
  obtain ⟨hx, hparent⟩ := hq x mem_cons_self
  have hne := (hturn.nChainTx_self hb hl hw hx hparent).2
  have hmono : ∀ p, s.nChainTx p ≠ 0 → t.nChainTx p ≠ 0 := by
    intro p hp
    by_cases hpx : p = x
    · rw [hpx]
      exact hne
    · rw [hturn.nChainTx, update_of_ne hpx]
      exact hp
  refine ⟨hturn.base hb hx, hturn.noWrap hw, hturn.links hb hl hw hx hparent, fun y hy => ?_⟩
  rcases mem_append.mp hy with hold | hnew
  · obtain ⟨hready, hlinked⟩ := hq y (mem_cons_of_mem x hold)
    refine ⟨hturn.ready hready, fun p hp => hmono p (hlinked p ?_)⟩
    rwa [pprev_of_map hturn.map] at hp
  · have hwait := mem_waitingFor.mp hnew
    refine ⟨hturn.ready_released hb hx hwait, fun p hp => ?_⟩
    rw [pprev_of_map hturn.map, (hb.waiting x y hwait).1] at hp
    cases hp
    exact hne

theorem noWrap_of_map (h : t.mapBlockIndex = s.mapBlockIndex) (hw : t.NoWrap) : s.NoWrap := by
  intro x hx hd
  have htx : t.branchTx x = s.branchTx x :=
    branchTx_congr (branch_of_map h x) fun a _ => by simp only [ChainIndex.nTx, h]
  rw [← htx]
  refine hw x (by rw [h]; exact hx) fun a ha => ?_
  rw [status_of_map h]
  rw [branch_of_map h] at ha
  exact hd a ha

theorem received_links (hb : s.Base env) (hl : s.Links [])
    (hst : Stored (block.getHash env.Hash) s (s.storeData env block pos))
    (hagree : s.pprev (block.getHash env.Hash) = some block.hashPrevBlock)
    (hparent : (s.status block.hashPrevBlock).failed = false)
    (hw : (s.receivedBlockTransactions env block pos).NoWrap) :
    (s.receivedBlockTransactions env block pos).Links [] := by
  have hbt := hst.base hb
  have hlt := hst.links hb hl
  rcases received_cases (rfl : s.storeData env block pos = _) with
    ⟨hlinked, heq⟩ | ⟨p, hp, hzero, heq⟩
  · rw [heq] at hw ⊢
    refine linkQueue_links hbt (noWrap_of_map (linkQueue_map env _ _) hw) hlt fun x hx => ?_
    rw [mem_singleton.mp hx]
    exact ⟨hst.ready_self hb fun p hp => hbt.linked p (hlinked p hp), hlinked⟩
  · have hpp : p = block.hashPrevBlock := by
      rw [hst.pprev, hagree] at hp
      exact (Option.some.inj hp).symm
    -- the parent is a known block below, and has not failed
    have hne : p ≠ block.getHash env.Hash := by
      intro he
      have hheight := hbt.graded _ p hp
      rw [he] at hheight
      omega
    have hvalid : ((s.storeData env block pos).status p).isValid BlockStatus.VALID_TREE = true := by
      rw [hst.status_ne p hne]
      have hlevel := hb.level p (hb.known _ p (hst.pprev ▸ hp))
      rw [hpp] at hlevel ⊢
      simp [BlockStatus.isValid, hparent, hlevel]
    rw [heq, if_pos hvalid]
    exact hlt.addUnlinked hp hzero

theorem BodyChecked.links (h : BodyChecked env block pos s t) (hb : s.Base env) (hl : s.Links [])
    (hpprev : s.pprev (block.getHash env.Hash) = some block.hashPrevBlock) (hw : t.NoWrap) :
    t.Links [] := by
  rcases h.outcome with heq | heq
  · rw [heq]
    exact (sameTree_updateStatus keepsData_markFailedValid s _).links hl
  · rw [heq] at hw ⊢
    exact received_links hb hl (stored_storeData pos h.known h.missing h.unfailed h.vtx) hpprev
      h.parent hw

theorem handle_links (hb : s.Base env) (hl : s.Links []) {e : IndexEvent}
    (hagree : s.HeadersAgree env e) (h : s.handle env e = some t) (hw : t.NoWrap) :
    t.Links [] := by
  cases handled h with
  | same => exact hl
  | grown hgrown => exact hgrown.links hb hl
  | stored he hu hbody =>
    subst he
    rcases hu with rfl | hgrown
    · refine hbody.links hb hl (hagree hbody.known fun he => ?_) hw
      have hdata := hb.genesis.data
      rw [← he, hbody.missing] at hdata
      cases hdata
    · exact hbody.links (hgrown.base hb) (hgrown.links hb hl) hgrown.pprev_self hw
  | activated hactivate => exact (activateBestChain_base hb hactivate).2.links hl
  | invalidated _ => exact (invalidateBlock_base hb _).2.links hl
  | reconsidered hreconsider =>
    exact (reconsiderBlock_spec hb (reconsiders_mem hreconsider)).sameTree.links hl

theorem OnlyGenesis.links (h : OnlyGenesis env s) : s.Links [] := by
  have hself : s.nChainTx env.hashGenesisBlock = 1 := by
    rw [h.nChainTx, update_self]
  refine ⟨fun x hx => ?_, fun x hx => ?_, fun p c hpc => ?_⟩
  · have hxg : x = env.hashGenesisBlock := by
      by_contra hne
      rw [h.nChainTx, update_of_ne hne] at hx
      exact hx rfl
    rw [hxg, hself, branchTx_of_root (h.pprev _), h.nTx]
    rfl
  · have hxg := (h.known x).mp (mem_of_data hx)
    rw [hxg, hself]
    exact .inl (by decide)
  · rw [h.unlinked] at hpc
    cases hpc

def LinksWaiting (s t : ChainIndex) : Prop :=
  ∀ d ∈ t.mapBlockIndex, s.Waits d → t.AllData d → t.nChainTx d ≠ 0 ∧ ¬ t.Waits d

theorem TreeData.linksWaiting (h : t.TreeData) : LinksWaiting s t := by
  intro d hd _ hall
  refine ⟨(h.linked d hd).mpr hall, fun hw => ?_⟩
  obtain ⟨-, a, ha, hda⟩ := (h.waits d hd).mp hw
  rw [hall a ha] at hda
  cases hda

/-- In every run whose headers have different hashes and whose branches have no
number of transactions that 32 bits read as zero, the counters and the map of
waiting blocks say what is stored. -/
theorem treeData_always (env : ChainEnv) (pos : CDiskBlockPos) (events : List IndexEvent)
    (hagree : Along (step env) (fun s e => WhileRunning (fun s => s.HeadersAgree env e) s)
      (some (initBlockIndex env pos)) events)
    (hwrap : Always (step env) (WhileRunning NoWrap) (some (initBlockIndex env pos)) events) :
    Always (step env) (WhileRunning TreeData) (some (initBlockIndex env pos)) events ∧
    Along (step env) (fun s e => ∀ u t, s = some u → step env s e = some t → LinksWaiting u t)
      (some (initBlockIndex env pos)) events := by
  have hgenesis := initBlockIndex_onlyGenesis env pos
  have hgo : ∀ (es : List IndexEvent) (s : Option ChainIndex),
      WhileRunning (fun s => s.Base env ∧ s.Links []) s →
      Along (step env) (fun s e => WhileRunning (fun s => s.HeadersAgree env e) s) s es →
      Always (step env) (WhileRunning NoWrap) s es →
      Always (step env) (WhileRunning TreeData) s es ∧
      Along (step env) (fun s e => ∀ u t, s = some u → step env s e = some t → LinksWaiting u t)
        s es := by
    intro es
    induction es with
    | nil =>
      intro s hs _ _
      exact ⟨fun t ht => (hs t ht).2.treeData (hs t ht).1, trivial⟩
    | cons e es ih =>
      intro s hs ha hw
      have hnext : WhileRunning (fun s => s.Base env ∧ s.Links []) (step env s e) := by
        intro t ht
        obtain ⟨u, hu, hut⟩ := Option.bind_eq_some_iff.mp ht
        obtain ⟨hb, hl⟩ := hs u hu
        exact ⟨handle_base hb hut, handle_links hb hl (ha.1 u hu) hut (hw.2.first t ht)⟩
      obtain ⟨halways, halong⟩ := ih (step env s e) hnext ha.2 hw.2
      refine ⟨⟨fun t ht => (hs t ht).2.treeData (hs t ht).1, halways⟩, fun u t _ ht => ?_, halong⟩
      exact (halways.first t ht).linksWaiting
  apply hgo events _ ?_ hagree hwrap
  intro t ht
  cases ht
  exact ⟨hgenesis.base, hgenesis.links⟩

def parentLate : List IndexEvent :=
  [.header (nonceBlock 0 1 0x1e0fffff 1) true, .block (nonceBlock 1 2 0x1e0fffff 3) {} ⟨0, 500⟩,
    .block (nonceBlock 0 1 0x1e0fffff 1) {} ⟨0, 900⟩, .activate fun _ => .valid]

theorem treeData_parentLate :
    Always (step nonceEnv) (WhileRunning TreeData) nonceGenesis parentLate :=
  (treeData_always nonceEnv ⟨0, 8⟩ parentLate (by decide +kernel) (by decide +kernel)).1

/-- A fresh block on a linked parent, with no block waiting. -/
theorem processNewBlock_linked (hb : s.Base env)
    (hsize : block.vtx.length ≠ 0 ∧ block.vtx.length ≤ MAX_BLOCK_SIZE_CURRENT)
    (hgenesis : block.getHash env.Hash ≠ env.hashGenesisBlock)
    (hfresh : block.getHash env.Hash ∉ s.mapBlockIndex)
    (hfailed : (s.status block.hashPrevBlock).failed = false)
    (hlinked : s.nChainTx block.hashPrevBlock ≠ 0) (hwaiting : s.mapBlocksUnlinked = []) :
    ∃ u v, Grown (block.getHash env.Hash) block.hashPrevBlock s u ∧
      Stored (block.getHash env.Hash) u v ∧ v.Base env ∧ v.Ready (block.getHash env.Hash) ∧
      v.nTx (block.getHash env.Hash) = block.vtx.length ∧
      v.nChainTxPrev (block.getHash env.Hash) = s.nChainTx block.hashPrevBlock ∧
      LinkTurn env (block.getHash env.Hash) v (s.processNewBlock env block {} pos) := by
  have hprev := (hb.linked _ hlinked).mem
  have hgrown := grown_addToBlockIndex hfresh hprev
  have hlarge : ¬ (block.vtx.length = 0 ∨ MAX_BLOCK_SIZE_CURRENT < block.vtx.length) := by omega
  have hprocess : s.processNewBlock env block {} pos =
      (s.addToBlockIndex env block).receivedBlockTransactions env block pos := by
    have hmissing := congrArg BlockStatus.fHaveData hgrown.status_self
    rw [processNewBlock, if_neg hlarge]
    simp [acceptBlock, hgenesis, hprev, hfailed, acceptBlockHeader, hfresh, acceptBlockBody,
      hmissing]
  rw [hprocess]
  obtain ⟨u, hu⟩ : ∃ u, s.addToBlockIndex env block = u := ⟨_, rfl⟩
  obtain ⟨v, hv⟩ : ∃ v, u.storeData env block pos = v := ⟨_, rfl⟩
  rw [hu] at hgrown ⊢
  have hknown : block.getHash env.Hash ∈ u.mapBlockIndex := (hgrown.mem _).mpr (.inl rfl)
  have hstored : Stored (block.getHash env.Hash) u v := hv ▸ stored_storeData pos hknown
    (by rw [hgrown.status_self]) (by rw [hgrown.status_self]; rfl) hsize.1
  have hbu := hgrown.base hb
  have hparent : v.nChainTx block.hashPrevBlock = s.nChainTx block.hashPrevBlock := by
    rw [hstored.nChainTx_eq hbu, hgrown.nChainTx, update_of_ne]
    exact fun he => hfresh (he ▸ hprev)
  have hpprev : v.pprev (block.getHash env.Hash) = some block.hashPrevBlock := by
    rw [hstored.pprev, hgrown.pprev_self]
  refine ⟨u, v, hgrown, hstored, hstored.base hbu, hstored.ready_self hbu fun p hp => ?_, ?_, ?_, ?_⟩
  · rw [hpprev] at hp
    cases hp
    exact (hstored.base hbu).linked _ (by rwa [hparent])
  · obtain ⟨index, hl⟩ := mem_iff_lookup.mp hknown
    simp only [ChainIndex.nTx, ← hv, lookup_received pos hl, if_true]
    rfl
  · simp only [nChainTxPrev, hpprev]
    exact hparent
  · rcases received_cases hv with ⟨-, heq⟩ | ⟨p, hp, hzero, -⟩
    · rw [heq]
      apply linkQueue_singleton
      rw [hstored.unlinked, hgrown.unlinked, hwaiting]
    · rw [hpprev] at hp
      cases hp
      exact absurd (hparent ▸ hzero) hlinked

def longBlock (i : Nat) : CBlock :=
  nonceBlock (BitVec.ofNat 256 (i - 1)) i 0x1e0fffff (if i = 1 then 16383 else 16384)

def longRun (n : Nat) : List IndexEvent :=
  (List.range n).map fun i => .block (longBlock (i + 1)) {} ⟨0, 0⟩

structure LongChain (n : Nat) (s : ChainIndex) : Prop where
  base : s.Base nonceEnv
  known : ∀ h, h ∈ s.mapBlockIndex ↔ ∃ j, j ≤ n ∧ h = BitVec.ofNat 256 j
  unfailed : ∀ h, (s.status h).failed = false
  unlinked : s.mapBlocksUnlinked = []
  ready : s.Ready (BitVec.ofNat 256 n)
  linked : s.nChainTx (BitVec.ofNat 256 n) = BitVec.ofNat 32 (if n = 0 then 1 else n * 16384)

theorem longBlock_hash (hn : n < 2 ^ 32) :
    (longBlock n).getHash nonceEnv.Hash = BitVec.ofNat 256 n :=
  nonceBlock_getHash _ _ _ hn

theorem nonceEnv_genesis : nonceEnv.hashGenesisBlock = BitVec.ofNat 256 0 := by decide +kernel

theorem ofNat_ne {a b : Nat} (ha : a < 2 ^ 32) (hb : b < 2 ^ 32) (h : a ≠ b) :
    BitVec.ofNat 256 a ≠ BitVec.ofNat 256 b := by
  intro he
  have hnat := congrArg BitVec.toNat he
  rw [toNat_ofNat, toNat_ofNat, Nat.mod_eq_of_lt (by omega),
    Nat.mod_eq_of_lt (by omega)] at hnat
  exact h hnat

theorem LongChain.fresh (h : LongChain n s) (hn : n + 1 < 2 ^ 32) :
    (longBlock (n + 1)).getHash nonceEnv.Hash ∉ s.mapBlockIndex := by
  rw [longBlock_hash hn, h.known]
  intro hknown
  obtain ⟨j, hj, he⟩ := hknown
  exact ofNat_ne hn (by omega) (by omega) he

theorem LongChain.step (h : LongChain n s) (hn : n + 1 < 2 ^ 32)
    (hlinked : s.nChainTx (BitVec.ofNat 256 n) ≠ 0) :
    LongChain (n + 1) (s.processNewBlock nonceEnv (longBlock (n + 1)) {} ⟨0, 0⟩) := by
  have hhash := longBlock_hash hn
  have hsize : (longBlock (n + 1)).vtx.length = if n = 0 then 16383 else 16384 := by
    simp [longBlock, nonceBlock]
  have hlen : (longBlock (n + 1)).vtx.length ≠ 0 ∧
      (longBlock (n + 1)).vtx.length ≤ MAX_BLOCK_SIZE_CURRENT := by
    rw [hsize]
    unfold MAX_BLOCK_SIZE_CURRENT
    split_ifs <;> omega
  have hgenesis : (longBlock (n + 1)).getHash nonceEnv.Hash ≠ nonceEnv.hashGenesisBlock := by
    rw [hhash, nonceEnv_genesis]
    exact ofNat_ne hn (by omega) (by omega)
  obtain ⟨u, v, hgrown, hstored, hbase, hready, htx, hchain, hturn⟩ :=
    processNewBlock_linked h.base hlen hgenesis (h.fresh hn) (h.unfailed _) hlinked
      h.unlinked
  refine ⟨hturn.base hbase hready, fun x => ?_, fun x => ?_, ?_, hhash ▸ hturn.ready hready, ?_⟩
  · rw [hturn.map, hstored.mem, hgrown.mem, h.known, hhash]
    constructor
    · intro hx
      rcases hx with hx | ⟨j, hj, hx⟩
      · exact ⟨n + 1, le_rfl, hx⟩
      · exact ⟨j, by omega, hx⟩
    · intro hold
      obtain ⟨j, hj, hx⟩ := hold
      by_cases hjn : j = n + 1
      · rw [hjn] at hx
        exact .inl hx
      · exact .inr ⟨j, by omega, hx⟩
  · rw [status_of_map hturn.map, hstored.failed, hgrown.failed]
    exact h.unfailed x
  · rw [hturn.unlinked, hstored.unlinked, hgrown.unlinked, h.unlinked]
    rfl
  · have hsum : (if n = 0 then 1 else n * 16384) + (if n = 0 then 16383 else 16384) =
        if n + 1 = 0 then 1 else (n + 1) * 16384 := by
      by_cases hzero : n = 0
      · simp [hzero]
      · simp [hzero, Nat.succ_mul]
    have hprev : (longBlock (n + 1)).hashPrevBlock = BitVec.ofNat 256 n := rfl
    rw [← hhash, hturn.nChainTx, update_self, hchain, hprev, h.linked, htx, hsize,
      ← ofNat_add, hsum]

theorem LongChain.linked_ne (h : LongChain n s) (hn : n < 2 ^ 18) :
    s.nChainTx (BitVec.ofNat 256 n) ≠ 0 := by
  rw [h.linked]
  intro hzero
  have hnat := congrArg BitVec.toNat hzero
  rw [toNat_ofNat] at hnat
  split_ifs at hnat
  · simp at hnat
  · rw [Nat.mod_eq_of_lt (by omega)] at hnat
    simp at hnat
    omega

theorem longRun_succ (n : Nat) :
    longRun (n + 1) = longRun n ++ [.block (longBlock (n + 1)) {} ⟨0, 0⟩] := by
  simp [longRun, range_succ]

theorem longRun_chain (hn : n ≤ 2 ^ 18) :
    ∃ s, run (step nonceEnv) nonceGenesis (longRun n) = some s ∧ LongChain n s := by
  induction n with
  | zero =>
    have hgenesis := initBlockIndex_onlyGenesis nonceEnv ⟨0, 8⟩
    refine ⟨initBlockIndex nonceEnv ⟨0, 8⟩, rfl, hgenesis.base, fun h => ?_, fun h => ?_,
      hgenesis.unlinked, ?_, ?_⟩
    · rw [hgenesis.known, nonceEnv_genesis]
      simp
    · by_cases hh : h = nonceEnv.hashGenesisBlock
      · rw [hh, hgenesis.status]
        rfl
      · rw [hgenesis.status_ne hh]
        rfl
    · rw [← nonceEnv_genesis]
      exact hgenesis.ready
    · rw [← nonceEnv_genesis, hgenesis.nChainTx, update_self]
      rfl
  | succ n ih =>
    obtain ⟨s, hrun, hs⟩ := ih (by omega)
    refine ⟨_, ?_, hs.step (by omega) (hs.linked_ne (by omega))⟩
    rw [longRun_succ, run_concat, hrun]
    rfl

theorem longRun_agree (hn : n ≤ 2 ^ 18) :
    Along (step nonceEnv) (fun s e => WhileRunning (fun s => s.HeadersAgree nonceEnv e) s)
      nonceGenesis (longRun n) := by
  induction n with
  | zero => trivial
  | succ n ih =>
    obtain ⟨s, hrun, hs⟩ := longRun_chain (n := n) (by omega)
    rw [longRun_succ, along_concat, hrun]
    refine ⟨ih (by omega), fun t ht hknown => ?_⟩
    cases ht
    exact absurd hknown (hs.fresh (by omega))

theorem longRun_not_treeData (hn : n = 2 ^ 18) :
    ¬ Always (step nonceEnv) (WhileRunning TreeData) nonceGenesis (longRun n) := by
  intro halways
  obtain ⟨s, hrun, hs⟩ := longRun_chain hn.le
  have htree : s.TreeData := halways.last s hrun
  have hlinked := (htree.linked _ hs.ready.mem).mpr hs.ready.allData
  have hzero : BitVec.ofNat 32 (if n = 0 then 1 else n * 16384) = 0 := by
    rw [hn]
    decide
  exact hlinked (hs.linked.trans hzero)

/-- Blocks received in order, none of them failed: once the branch has `2 ^ 32`
transactions, `nChainTx` of its tip is zero although everything is stored. -/
theorem longRun_wraps : ∃ n, n = 2 ^ 18 ∧
      Along (step nonceEnv) (fun s e => WhileRunning (fun s => s.HeadersAgree nonceEnv e) s)
        nonceGenesis (longRun n) ∧
      ¬ Always (step nonceEnv) (WhileRunning TreeData) nonceGenesis (longRun n) := by
  obtain ⟨n, hn⟩ : ∃ n, n = 2 ^ 18 := ⟨_, rfl⟩
  exact ⟨n, hn, longRun_agree hn.le, longRun_not_treeData hn⟩

end Alqo.ChainIndex
