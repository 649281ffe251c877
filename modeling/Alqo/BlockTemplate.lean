import Alqo.MemPoolIndex
import Alqo.MerkleTree

/-!
# Assembling a block (miner.cpp)

`CreateNewBlock` keeps to limits of its own; `CheckBlock` has others. Priorities are floating point
numbers and the front of a heap is one of the greatest; both are left open, since what is shown does
not depend on the order.
-/

namespace Alqo
open Lib.Fallible Lib.UndoLog List Function

/- `nSatoshisPerK` of a fee rate. The size is unsigned, so the division is. -/
def satoshisPerK (nFeePaid : CAmount) (nSize : Nat) : CAmount :=
  if 0 < nSize then ((nFeePaid * 1000).toUInt64 / UInt64.ofNat nSize).toInt64 else 0

structure TxPriority (Double : Type) where
  dPriority : Double
  feeRate : CAmount
  ptx : CTransaction

structure COrphan (Double : Type) extends TxPriority Double where
  setDependsOn : List uint256

structure MinerEnv where
  node : Node
  Double : Type
  /- `dPriority` by the values and confirmations of the inputs in the chain, with its delta -/
  computePriority : CTransaction → List (CAmount × Int) → Double
  allowFree : Double → Bool
  /- `mapDeltas`: whether the priority is raised, and the change of the fee -/
  mapDeltas : uint256 → Bool × CAmount := fun _ => (false, 0)
  minRelayTxFee : CAmount := 10000
  /- `vecPriority.front()` of a heap, as a position modulo its size -/
  front : (byFee : Bool) → List (TxPriority Double) → Nat
  /- `-blockmaxsize`, `-blockprioritysize`, `-blockminsize` -/
  blockMaxSize : Int := 750000
  blockPrioritySize : Int := 50000
  blockMinSize : Int := 0

/- Pointers to an orphan are the hash of its transaction. Those to an orphan that `pop_back` has
freed are still in `mapDependers`. -/
structure Candidates (Double : Type) where
  vecPriority : List (TxPriority Double) := []
  vOrphan : uint256 → Option (COrphan Double) := fun _ => none
  mapDependers : List (uint256 × uint256) := []

structure ScannedInputs where
  dependsOn : List uint256 := []
  found : List (CAmount × Int) := []
  nTotalIn : CAmount := 0

/- The loop over the inputs, with `fMissingInputs`. -/
def scanInputs (pool : CTxMemPool) (view : CoinsView) (nHeight : Int) :
    List CTxIn → ScannedInputs → Except Failure (Bool × ScannedInputs)
  | [], s => .ok (false, s)
  | txin :: rest, s =>
    match view.accessCoins txin.prevout.hash with
    | none =>
      match pool.mapTx.lookup txin.prevout.hash with
      | none => .ok (true, s)
      | some entry =>
        match entry.tx.vout[txin.prevout.n]? with
        | none => .error .outOfBounds
        | some out =>
          scanInputs pool view nHeight rest { s with
            dependsOn := s.dependsOn ++ [txin.prevout.hash]
            nTotalIn := s.nTotalIn + out.nValue }
    | some coins =>
      match coins.vout[txin.prevout.n]? with
      | none => .error .outOfBounds
      | some out =>
        scanInputs pool view nHeight rest { s with
          found := s.found ++ [(out.nValue, nHeight - coins.nHeight)]
          nTotalIn := s.nTotalIn + out.nValue }

namespace MinerEnv
variable (env : MinerEnv)

def nHeight : Nat := env.node.chainActive.length

/- Options are cut to `unsigned int`. -/
def nBlockMaxSize : Nat :=
  max 1000 (min (MAX_BLOCK_SIZE_CURRENT - 1000) (env.blockMaxSize % 2 ^ 32).toNat)

def nBlockPrioritySize : Nat := min env.nBlockMaxSize (env.blockPrioritySize % 2 ^ 32).toNat

def nBlockMinSize : Nat := min env.nBlockMaxSize (env.blockMinSize % 2 ^ 32).toNat

/- One entry of the pool. -/
def scanEntry (pool : CTxMemPool) (view : CoinsView) (tx : CTransaction)
    (c : Candidates env.Double) : Except Failure (Candidates env.Double) :=
  if tx.isCoinBase || tx.isCoinStake || !isFinalTx tx env.nHeight env.node.adjustedTime then .ok c
  else
    match scanInputs pool view env.nHeight tx.vin {} with
    | .error e => .error e
    | .ok (fMissingInputs, ins) =>
      let mapDependers := c.mapDependers ++ ins.dependsOn.map fun hash => (hash, tx.hash)
      if fMissingInputs then .ok { c with mapDependers := mapDependers }
      else
        match valueOut tx with
        | .error e => .error e
        | .ok nValueOut =>
          let item : TxPriority env.Double :=
            { dPriority := env.computePriority tx ins.found
              feeRate := satoshisPerK (ins.nTotalIn + (env.mapDeltas tx.hash).2 - nValueOut)
                tx.getSerializeSize
              ptx := tx }
          if ins.dependsOn = [] then
            .ok { c with vecPriority := c.vecPriority ++ [item], mapDependers := mapDependers }
          else
            .ok { c with
              vOrphan := Function.update c.vOrphan tx.hash
                (some { item with setDependsOn := ins.dependsOn })
              mapDependers := mapDependers }

def collect (pool : CTxMemPool) (view : CoinsView) : Except Failure (Candidates env.Double) :=
  runFrom (fun _ tx => env.scanEntry pool view tx) 0 (pool.mapTx.entries.map fun e => e.2.tx) {}

end MinerEnv

namespace Candidates
variable {Double : Type}

/- One turn of miner.cpp:325-334. -/
def releaseOne (hash : uint256) (porphan : uint256) (c : Candidates Double) :
    Except Failure (Candidates Double) :=
  match c.vOrphan porphan with
  | none => .error .outOfBounds
  | some orphan =>
    if orphan.setDependsOn = [] then .ok c
    else
      let left := orphan.setDependsOn.filter (· ≠ hash)
      let vOrphan := Function.update c.vOrphan porphan (some { orphan with setDependsOn := left })
      if left = [] then
        .ok { c with vOrphan := vOrphan, vecPriority := c.vecPriority ++ [orphan.toTxPriority] }
      else .ok { c with vOrphan := vOrphan }

def release (c : Candidates Double) (hash : uint256) : Except Failure (Candidates Double) :=
  runFrom (fun _ => releaseOne hash) 0
    (c.mapDependers.filterMap fun d => if d.1 = hash then some d.2 else none) c

end Candidates

structure Assembly where
  view : CoinsView
  vtx : List CTransaction := []
  vTxFees : List CAmount := []
  vTxSigOps : List Nat := []
  nBlockSize : Nat := 1000
  nBlockSigOps : Nat := 100
  nFees : CAmount := 0

namespace MinerEnv
variable (env : MinerEnv)

def checkingNode : Node :=
  { env.node with
    scriptCheckThreads := false
    verifyScript := fun _ => env.node.verifyScript true }

/- `none` is `continue`. -/
def addTransaction (tx : CTransaction) (a : Assembly) : Except Failure (Option Assembly) :=
  if !a.view.haveInputs tx then .ok none
  else do
    let nValueIn ← a.view.getValueIn tx
    let nValueOut ← valueOut tx
    let nP2SHSigOps ← a.view.getP2SHSigOpCount tx
    let nTxSigOps := getLegacySigOpCount tx + nP2SHSigOps
    if a.nBlockSigOps + nTxSigOps ≥ MAX_BLOCK_SIGOPS_CURRENT then return none
    match checkInputs env.checkingNode a.view tx true with
    | .error (.reject _) => return none
    | .error e => throw e
    | .ok _ =>
      let (view, _) ← a.view.updateCoins tx env.nHeight
      return some
        { view := view
          vtx := a.vtx ++ [tx]
          vTxFees := a.vTxFees ++ [nValueIn - nValueOut]
          vTxSigOps := a.vTxSigOps ++ [nTxSigOps]
          nBlockSize := a.nBlockSize + tx.getSerializeSize
          nBlockSigOps := a.nBlockSigOps + nTxSigOps
          nFees := a.nFees + (nValueIn - nValueOut) }

/- A free transaction past the minimum size. -/
def skipsFree (fSortedByFee : Bool) (item : TxPriority env.Double) (nSize : Nat) : Bool :=
  fSortedByFee && !(env.mapDeltas item.ptx.hash).1 && decide ((env.mapDeltas item.ptx.hash).2 ≤ 0) &&
    decide (item.feeRate < env.minRelayTxFee) && decide (nSize ≥ env.nBlockMinSize)

def consider (fSortedByFee : Bool) (item : TxPriority env.Double) (a : Assembly) :
    Except Failure (Bool × Option Assembly) :=
  let nSize := a.nBlockSize + item.ptx.getSerializeSize
  if nSize ≥ env.nBlockMaxSize then .ok (fSortedByFee, none)
  else if a.nBlockSigOps + getLegacySigOpCount item.ptx ≥ MAX_BLOCK_SIGOPS_CURRENT then
    .ok (fSortedByFee, none)
  else if env.skipsFree fSortedByFee item nSize then .ok (fSortedByFee, none)
  else
    match env.addTransaction item.ptx a with
    | .error e => .error e
    | .ok added =>
      .ok (fSortedByFee || decide (nSize ≥ env.nBlockPrioritySize) || !env.allowFree item.dPriority,
        added)

def popFront (byFee : Bool) (vecPriority : List (TxPriority env.Double)) :
    Option (TxPriority env.Double × List (TxPriority env.Double)) :=
  let i := env.front byFee vecPriority % vecPriority.length
  vecPriority[i]?.map fun item => (item, vecPriority.eraseIdx i)

def takeFrom : (turns : Nat) → (fSortedByFee : Bool) → Assembly → Candidates env.Double →
    Except Failure (Assembly × Candidates env.Double)
  | 0, _, a, c => .ok (a, c)
  | turns + 1, fSortedByFee, a, c =>
    match env.popFront fSortedByFee c.vecPriority with
    | none => .ok (a, c)
    | some (item, rest) =>
      match env.consider fSortedByFee item a with
      | .error e => .error e
      | .ok (fSortedByFee, none) => takeFrom turns fSortedByFee a { c with vecPriority := rest }
      | .ok (fSortedByFee, some a) =>
        match Candidates.release { c with vecPriority := rest } item.ptx.hash with
        | .error e => .error e
        | .ok c => takeFrom turns fSortedByFee a c

def select (pool : CTxMemPool) (view : CoinsView) :
    Except Failure (Assembly × Candidates env.Double) :=
  match env.collect pool view with
  | .error e => .error e
  | .ok c =>
    env.takeFrom pool.mapTx.entries.length (decide (env.nBlockPrioritySize = 0)) { view := view } c

/- The end of `CreateNewBlock`: the coinbase, which depends on the fees, and
the coinstake in front; `TestBlockValidity` is `CheckBlock` and checks against the chain. -/
def createNewBlock (Hash : Bytes → uint256) (pool : CTxMemPool) (view : CoinsView)
    (header : CBlock) (first : CAmount → List CTransaction) (fitsChain : CBlock → Bool) :
    Except Failure (Option CBlock) :=
  match env.select pool view with
  | .error e => .error e
  | .ok (a, _) =>
    let block := { header with vtx := first a.nFees ++ a.vtx }
    match checkBlock Hash env.node block false false with
    | .error (.reject _) => .ok none
    | .error e => .error e
    | .ok _ => .ok (if fitsChain block then some block else none)

end MinerEnv

theorem count_append_self {α : Type} [DecidableEq α] (l : List α) (a x : α) :
    (l ++ [a]).count x = l.count x + if x = a then 1 else 0 := by
  rw [count_append, count_singleton]
  by_cases hx : x = a
  · rw [if_pos hx, if_pos (beq_iff_eq.mpr hx.symm)]
  · rw [if_neg hx, if_neg fun h => hx (beq_iff_eq.mp h).symm]

namespace Candidates
variable {Double : Type} {c c' : Candidates Double} {x hash : uint256} {orphan : COrphan Double}

def queued (c : Candidates Double) : List uint256 := c.vecPriority.map fun item => item.ptx.hash

def waits (c : Candidates Double) (hash : uint256) : Nat :=
  match c.vOrphan hash with
  | none => 0
  | some orphan => if orphan.setDependsOn = [] then 0 else 1

def pending (c : Candidates Double) (hash : uint256) : Nat := c.queued.count hash + c.waits hash

structure Sound (c : Candidates Double) : Prop where
  queue : ∀ item ∈ c.vecPriority, item.ptx.isCoinBase = false
  orphans : ∀ hash orphan, c.vOrphan hash = some orphan →
    orphan.ptx.hash = hash ∧ orphan.ptx.isCoinBase = false

theorem waits_of_update {vOrphan : uint256 → Option (COrphan Double)}
    (h : c.vOrphan = Function.update vOrphan x (some orphan)) (hash : uint256) :
    c.waits hash = if hash = x then (if orphan.setDependsOn = [] then 0 else 1)
      else { c with vOrphan := vOrphan }.waits hash := by
  rw [waits, waits, h]
  by_cases hx : hash = x
  · rw [hx, update_self, if_pos rfl]
  · rw [update_of_ne hx, if_neg hx]

theorem Sound.update (h : c.Sound) (hx : orphan.ptx.hash = x)
    (hbase : orphan.ptx.isCoinBase = false) (hash : uint256) (o : COrphan Double)
    (ho : Function.update c.vOrphan x (some orphan) hash = some o) :
    o.ptx.hash = hash ∧ o.ptx.isCoinBase = false := by
  by_cases heq : hash = x
  · rw [heq, update_self] at ho
    cases ho
    exact ⟨hx.trans heq.symm, hbase⟩
  · rw [update_of_ne heq] at ho
    exact h.orphans hash o ho

theorem Sound.push (h : c.Sound) {item : TxPriority Double} (hbase : item.ptx.isCoinBase = false) :
    ∀ i ∈ c.vecPriority ++ [item], i.ptx.isCoinBase = false :=
  forall_mem_append.mpr ⟨h.queue, forall_mem_singleton.mpr hbase⟩

theorem count_queued_push {item : TxPriority Double}
    (h : c'.vecPriority = c.vecPriority ++ [item]) :
    c'.queued.count x = c.queued.count x + if x = item.ptx.hash then 1 else 0 := by
  rw [queued, h, map_append, map_singleton, count_append_self, queued]

theorem releaseOne_spec {porphan : uint256} (hc : c.Sound)
    (h : releaseOne hash porphan c = .ok c') :
    c'.Sound ∧ c'.mapDependers = c.mapDependers ∧ ∀ x, c'.pending x = c.pending x := by
  rw [releaseOne] at h
  split at h
  · cases h
  · rename_i orphan horphan
    obtain ⟨hhash, hbase⟩ := hc.orphans porphan orphan horphan
    dsimp only at h
    split at h
    · cases h
      exact ⟨hc, rfl, fun x => rfl⟩
    · rename_i hwaits
      have hone : c.waits porphan = 1 := by rw [waits, horphan]; exact if_neg hwaits
      split at h
      · rename_i hleft
        cases h
        refine ⟨⟨hc.push hbase, hc.update hhash hbase⟩, rfl, fun x => ?_⟩
        rw [pending, pending, waits_of_update rfl, if_pos hleft, count_queued_push rfl, hhash]
        by_cases hx : x = porphan
        · rw [if_pos hx, if_pos hx, hx, hone]
        · rw [if_neg hx, if_neg hx]
          rfl
      · rename_i hleft
        cases h
        refine ⟨⟨hc.queue, hc.update hhash hbase⟩, rfl, fun x => ?_⟩
        rw [pending, pending, waits_of_update rfl, if_neg hleft]
        by_cases hx : x = porphan
        · rw [if_pos hx, hx, hone]
          rfl
        · rw [if_neg hx]
          rfl

theorem release_spec (hc : c.Sound) (h : c.release hash = .ok c') :
    c'.Sound ∧ ∀ x, c'.pending x = c.pending x := by
  refine runFrom_induct (fun _ (d : Candidates Double) => d.Sound ∧ ∀ x, d.pending x = c.pending x)
    ?_ [] ⟨hc, fun _ => rfl⟩ h
  rintro seen porphan d d' ⟨hd, hpending⟩ hstep
  obtain ⟨hd', -, hsame⟩ := releaseOne_spec hd hstep
  exact ⟨hd', fun x => (hsame x).trans (hpending x)⟩

theorem pending_pop {item : TxPriority Double} {rest : List (TxPriority Double)}
    (h : c.vecPriority.Perm (item :: rest)) (x : uint256) :
    c.pending x = { c with vecPriority := rest }.pending x + if x = item.ptx.hash then 1 else 0 := by
  have hcount := (h.map fun item => item.ptx.hash).count_eq x
  rw [map_cons, count_cons] at hcount
  have hbeq : (item.ptx.hash == x) = decide (x = item.ptx.hash) := by
    rw [Bool.eq_iff_iff, beq_iff_eq, decide_eq_true_iff]
    exact eq_comm
  rw [hbeq] at hcount
  simp only [decide_eq_true_eq] at hcount
  change (c.vecPriority.map _).count x + c.waits x = (rest.map _).count x + c.waits x + _
  omega

end Candidates

namespace MinerEnv
variable {env : MinerEnv} {pool : CTxMemPool} {view : CoinsView} {tx : CTransaction}
  {c c' : Candidates env.Double} {a a' : Assembly} {byFee : Bool}

theorem scanEntry_spec (hc : c.Sound) (h : env.scanEntry pool view tx c = .ok c') :
    c'.Sound ∧ ∀ x, c'.pending x ≤ c.pending x + if x = tx.hash then 1 else 0 := by
  rw [scanEntry] at h
  split at h
  · cases h
    exact ⟨hc, fun x => Nat.le_add_right _ _⟩
  · rename_i hskip
    have hbase : tx.isCoinBase = false := by
      cases htx : tx.isCoinBase with
      | false => rfl
      | true => exact absurd (by simp [htx]) hskip
    split at h
    · cases h
    · dsimp only at h
      split at h
      · cases h
        exact ⟨⟨hc.queue, hc.orphans⟩, fun x => Nat.le_add_right _ _⟩
      · split at h
        · cases h
        · split at h
          · cases h
            refine ⟨⟨hc.push hbase, hc.orphans⟩, fun x => ?_⟩
            rw [Candidates.pending, Candidates.count_queued_push rfl]
            exact (Nat.add_right_comm _ _ _).le
          · rename_i hwaits
            cases h
            refine ⟨⟨hc.queue, hc.update rfl hbase⟩, fun x => ?_⟩
            rw [Candidates.pending, Candidates.pending, Candidates.waits_of_update rfl]
            by_cases hx : x = tx.hash
            · rw [if_pos hx, if_pos hx, if_neg hwaits]
              change c.queued.count x + 1 ≤ _
              omega
            · rw [if_neg hx, if_neg hx]
              exact Nat.le_refl _

def poolHashes (pool : CTxMemPool) : List uint256 := pool.mapTx.entries.map fun e => e.2.tx.hash

theorem collect_spec (h : env.collect pool view = .ok c) :
    c.Sound ∧ ∀ x, c.pending x ≤ (poolHashes pool).count x := by
  have hrun := runFrom_induct
    (fun seen (d : Candidates env.Double) => d.Sound ∧
      ∀ x, d.pending x ≤ (seen.map CTransaction.hash).count x)
    (fun seen tx d d' hd hstep => ?_) []
    ⟨⟨fun _ hitem => (by cases hitem), fun _ _ ho => (by cases ho)⟩, fun x => Nat.zero_le _⟩ h
  · rw [nil_append, map_map] at hrun
    exact hrun
  · obtain ⟨hsound, hpending⟩ := scanEntry_spec hd.1 hstep
    refine ⟨hsound, fun x => (hpending x).trans ?_⟩
    have hseen := hd.2 x
    rw [map_append, map_singleton, count_append_self]
    omega

theorem popFront_spec {queue rest : List (TxPriority env.Double)} {item : TxPriority env.Double}
    (h : env.popFront byFee queue = some (item, rest)) :
    queue.Perm (item :: rest) := by
  obtain ⟨item', hitem, heq⟩ := Option.map_eq_some_iff.mp h
  obtain ⟨hlt, hget⟩ := List.getElem?_eq_some_iff.mp hitem
  cases heq
  rw [← hget]
  exact (getElem_cons_eraseIdx_perm hlt).symm

theorem popFront_eq_none {queue : List (TxPriority env.Double)}
    (h : env.popFront byFee queue = none) : queue = [] := by
  rw [popFront, Option.map_eq_none_iff, List.getElem?_eq_none_iff] at h
  rw [← length_eq_zero_iff]
  by_contra hne
  have hlt := Nat.mod_lt (env.front byFee queue) (Nat.pos_of_ne_zero hne)
  omega

/- An added transaction has its inputs in the view and stays below the limits of the loop. -/
structure Adds (env : MinerEnv) (tx : CTransaction) (a a' : Assembly) : Prop where
  inputs : a.view.haveInputs tx = true
  coins : ∃ txundo, a.view.updateCoins tx env.nHeight = .ok (a'.view, txundo)
  vtx : a'.vtx = a.vtx ++ [tx]
  size : a'.nBlockSize = a.nBlockSize + tx.getSerializeSize
  sizeLt : a'.nBlockSize < env.nBlockMaxSize
  sigOps : a.nBlockSigOps + getLegacySigOpCount tx ≤ a'.nBlockSigOps
  sigOpsLt : a'.nBlockSigOps < MAX_BLOCK_SIGOPS_CURRENT

theorem adds_of_addTransaction (hsize : a.nBlockSize + tx.getSerializeSize < env.nBlockMaxSize)
    (h : env.addTransaction tx a = .ok (some a')) : Adds env tx a a' := by
  rw [addTransaction] at h
  split at h
  · cases h
  · rename_i hinputs
    obtain ⟨nValueIn, -, h⟩ := bind_ok_iff.mp h
    obtain ⟨nValueOut, -, h⟩ := bind_ok_iff.mp h
    obtain ⟨nP2SH, -, h⟩ := bind_ok_iff.mp h
    dsimp only at h
    split at h
    · cases h
    · rename_i hsigOps
      split at h
      · cases h
      · cases h
      · obtain ⟨⟨view', txundo⟩, hupdate, h⟩ := bind_ok_iff.mp h
        cases h
        exact
          { inputs := by simpa using hinputs
            coins := ⟨txundo, hupdate⟩
            vtx := rfl
            size := rfl
            sizeLt := hsize
            sigOps := Nat.add_le_add_left (Nat.le_add_right _ _) _
            sigOpsLt := Nat.lt_of_not_le hsigOps }

theorem adds_of_consider {fSortedByFee fSortedByFee' : Bool} {item : TxPriority env.Double}
    (h : env.consider fSortedByFee item a = .ok (fSortedByFee', some a')) :
    Adds env item.ptx a a' := by
  rw [consider] at h
  split at h
  · cases h
  · rename_i hsize
    split at h
    · cases h
    · split at h
      · cases h
      · split at h
        · cases h
        · rename_i added hadd
          cases h
          exact adds_of_addTransaction (Nat.lt_of_not_le hsize) hadd

end MinerEnv

def CTransaction.SpendsFrom (tx other : CTransaction) : Prop := ∃ p ∈ tx.prevouts, p.hash = other.hash

def Ordered (vtx : List CTransaction) : Prop :=
  vtx.Pairwise (fun earlier later => ¬ earlier.SpendsFrom later) ∧
    ∀ tx ∈ vtx, ¬ tx.SpendsFrom tx

variable {view view' : CoinsView} {q : COutPoint}

theorem CoinsView.unspent_spendInputs_none {prevouts : List COutPoint} {undos : List CTxInUndo}
    (h : view.spendInputs prevouts = .ok (view', undos)) (hq : view.unspent q = none) :
    view'.unspent q = none := by
  induction prevouts generalizing view undos with
  | nil =>
    cases h
    exact hq
  | cons p rest ih =>
    obtain ⟨mid, undo, us, hp, hrest, -⟩ := recordAll_cons_ok_iff.mp h
    apply ih hrest
    rw [unspent_of_spendInput hp, hq, ite_self]

theorem CoinsView.unspent_updateCoins_none {tx : CTransaction} {nHeight : Nat} {txundo : CTxUndo}
    (h : view.updateCoins tx nHeight = .ok (view', txundo)) (hne : q.hash ≠ tx.hash)
    (hq : view.unspent q = none) :
    view'.unspent q = none := by
  rw [updateCoins_eq] at h
  cases hspend : view.spendInputs tx.spends with
  | error e =>
    rw [hspend] at h
    cases h
  | ok r =>
    rw [hspend] at h
    cases h
    have hmid := unspent_spendInputs_none hspend hq
    rw [unspent, create, CoinsMap.coins_modify_of_ne _ _ _ _ hne]
    exact hmid

namespace Assembly
variable {env : MinerEnv} {K : List uint256} {a a' : Assembly} {tx : CTransaction}

def hashes (a : Assembly) : List uint256 := a.vtx.map CTransaction.hash

theorem hashes_of_adds (h : MinerEnv.Adds env tx a a') : a'.hashes = a.hashes ++ [tx.hash] := by
  rw [hashes, h.vtx, map_append]
  rfl

/- For a pool with the hashes `K`. -/
structure Sound (env : MinerEnv) (K : List uint256) (a : Assembly) : Prop where
  unseen : ∀ p : COutPoint, p.hash ∈ K → p.hash ∉ a.hashes → a.view.unspent p = none
  parents : ∀ tx ∈ a.vtx, ∀ p ∈ tx.prevouts, p.hash ∈ K → p.hash ∈ a.hashes
  ordered : Ordered a.vtx
  size : a.nBlockSize = 1000 + (a.vtx.map CTransaction.getSerializeSize).sum
  sigOps : 100 + (a.vtx.map getLegacySigOpCount).sum ≤ a.nBlockSigOps
  limits : a.vtx = [] ∨
    (a.nBlockSize < env.nBlockMaxSize ∧ a.nBlockSigOps < MAX_BLOCK_SIGOPS_CURRENT)

theorem sound_start {view : CoinsView}
    (hnew : ∀ p : COutPoint, p.hash ∈ K → view.unspent p = none) :
    Sound env K { view := view } where
  unseen := fun p hp _ => hnew p hp
  parents := fun tx htx => (by cases htx)
  ordered := ⟨.nil, fun tx htx => (by cases htx)⟩
  size := rfl
  sigOps := Nat.le_refl 100
  limits := .inl rfl

theorem Sound.add (h : Sound env K a) (hadd : MinerEnv.Adds env tx a a')
    (hbase : tx.isCoinBase = false) (hK : tx.hash ∈ K) (hnot : tx.hash ∉ a.hashes) :
    Sound env K a' := by
  obtain ⟨txundo, hcoins⟩ := hadd.coins
  have hhashes := hashes_of_adds hadd
  -- the inputs are unspent, so those of the pool are outputs of what is in the block
  have hparents : ∀ p ∈ tx.prevouts, p.hash ∈ K → p.hash ∈ a.hashes := by
    intro p hp hpK
    by_contra habsent
    have hsome := (a.view.haveInputs_iff tx hbase).mp hadd.inputs p hp
    rw [h.unseen p hpK habsent] at hsome
    cases hsome
  refine ⟨?_, ?_, ⟨?_, ?_⟩, ?_, ?_, .inr ⟨hadd.sizeLt, hadd.sigOpsLt⟩⟩
  · intro p hpK hp
    rw [hhashes, mem_append, mem_singleton, not_or] at hp
    exact CoinsView.unspent_updateCoins_none hcoins hp.2 (h.unseen p hpK hp.1)
  · intro u hu p hp hpK
    rw [hhashes]
    apply mem_append_left
    rw [hadd.vtx, mem_append, mem_singleton] at hu
    cases hu with
    | inl hu => exact h.parents u hu p hp hpK
    | inr hu => exact hparents p (hu ▸ hp) hpK
  · rw [hadd.vtx, pairwise_append]
    refine ⟨h.ordered.1, pairwise_singleton _ _, fun u hu later hlater hspends => ?_⟩
    rw [mem_singleton] at hlater
    obtain ⟨p, hp, hhash⟩ := hspends
    rw [hlater] at hhash
    exact hnot (hhash ▸ h.parents u hu p hp (hhash.symm ▸ hK))
  · intro u hu hspends
    rw [hadd.vtx, mem_append, mem_singleton] at hu
    cases hu with
    | inl hu => exact h.ordered.2 u hu hspends
    | inr hu =>
      obtain ⟨p, hp, hhash⟩ := hspends
      rw [hu] at hp hhash
      exact hnot (hhash ▸ hparents p hp (hhash.symm ▸ hK))
  · have hsize := h.size
    rw [hadd.size, hadd.vtx, map_append, sum_append, map_singleton,
      sum_singleton]
    omega
  · have hsigOps := h.sigOps
    have hmore := hadd.sigOps
    rw [hadd.vtx, map_append, sum_append, map_singleton, sum_singleton]
    omega

end Assembly

namespace MinerEnv
variable {env : MinerEnv} {K : List uint256} {a a' : Assembly} {c c' : Candidates env.Double}

def Once (K : List uint256) (a : Assembly) (c : Candidates env.Double) : Prop :=
  ∀ x, a.hashes.count x + c.pending x ≤ K.count x

def toCome (K : List uint256) (c : Candidates env.Double) : Nat := (K.map c.pending).sum

theorem sum_map_indicator (K : List uint256) (f g : uint256 → Nat) (x : uint256)
    (h : ∀ y, f y = g y + if y = x then 1 else 0) : (K.map f).sum = (K.map g).sum + K.count x := by
  induction K with
  | nil => rfl
  | cons y K ih =>
    rw [map_cons, sum_cons, map_cons, sum_cons, ih, h y, count_cons]
    by_cases hy : y = x
    · rw [if_pos hy, if_pos (beq_iff_eq.mpr hy)]
      omega
    · rw [if_neg hy, if_neg fun h => hy (beq_iff_eq.mp h)]
      omega

theorem toCome_pop {item : TxPriority env.Double} {rest : List (TxPriority env.Double)}
    (hperm : c.vecPriority.Perm (item :: rest)) (honce : Once K a c) :
    item.ptx.hash ∈ K ∧ toCome K { c with vecPriority := rest } < toCome K c := by
  have hpop := Candidates.pending_pop hperm
  have hhash := hpop item.ptx.hash
  rw [if_pos rfl] at hhash
  have hle := honce item.ptx.hash
  have hpos : 0 < K.count item.ptx.hash := by omega
  have hsum := sum_map_indicator K c.pending _ _ hpop
  exact ⟨count_pos_iff.mp hpos, by rw [toCome, toCome]; omega⟩

theorem takeFrom_spec (hK : K.Nodup) (turns : Nat) {fSortedByFee : Bool}
    (ha : Assembly.Sound env K a) (hc : c.Sound) (honce : Once K a c)
    (hturns : toCome K c ≤ turns) (h : env.takeFrom turns fSortedByFee a c = .ok (a', c')) :
    Assembly.Sound env K a' ∧ Once K a' c' ∧ c'.vecPriority = [] := by
  induction turns generalizing fSortedByFee a c with
  | zero =>
    cases h
    refine ⟨ha, honce, ?_⟩
    cases hqueue : c'.vecPriority with
    | nil => rfl
    | cons item rest =>
      have hpop := (toCome_pop (List.Perm.of_eq hqueue) honce).2
      omega
  | succ turns ih =>
    rw [takeFrom] at h
    split at h
    · rename_i hempty
      cases h
      exact ⟨ha, honce, popFront_eq_none hempty⟩
    · rename_i item rest hfront
      have hperm := popFront_spec hfront
      obtain ⟨hmem, hless⟩ := toCome_pop hperm honce
      have hpop := Candidates.pending_pop hperm
      have hrest : ({ c with vecPriority := rest } : Candidates env.Double).Sound :=
        ⟨fun i hi => hc.queue i (hperm.mem_iff.mpr (mem_cons_of_mem _ hi)), hc.orphans⟩
      split at h
      · cases h
      · refine ih ha hrest (fun x => ?_) (by omega) h
        have hx := honce x
        rw [hpop x] at hx
        omega
      · rename_i fSortedByFee' added hconsider
        have hadd := adds_of_consider hconsider
        split at h
        · cases h
        · rename_i c₁ hrelease
          obtain ⟨hc₁, hpending⟩ := Candidates.release_spec hrest hrelease
          have hhash := honce item.ptx.hash
          rw [hpop, if_pos rfl] at hhash
          have hone := nodup_iff_count_le_one.mp hK item.ptx.hash
          have hnot : item.ptx.hash ∉ a.hashes := by
            rw [← count_eq_zero]
            omega
          have hbase := hc.queue item (hperm.mem_iff.mpr mem_cons_self)
          have hsum : toCome K c₁ = toCome K { c with vecPriority := rest } := by
            rw [toCome, toCome, map_congr_left fun x _ => hpending x]
          refine ih (ha.add hadd hbase hmem hnot) hc₁ (fun x => ?_) (by omega) h
          have hx := honce x
          rw [hpop x] at hx
          rw [hpending, Assembly.hashes_of_adds hadd, count_append_self]
          omega

end MinerEnv

namespace CBlock

def withinSize (block : CBlock) : Bool :=
  !(block.vtx.isEmpty || block.vtx.length > MAX_BLOCK_SIZE_CURRENT ||
    block.getSerializeSize > MAX_BLOCK_SIZE_CURRENT)

def withinSigOps (block : CBlock) : Bool :=
  !((block.vtx.map getLegacySigOpCount).sum > MAX_BLOCK_SIGOPS_LEGACY)

theorem length_le_getSerializeSize (block : CBlock) : block.vtx.length ≤ block.getSerializeSize := by
  have hlength : ∀ vtx : List CTransaction,
      vtx.length ≤ (vtx.map CTransaction.getSerializeSize).sum := by
    intro vtx
    induction vtx with
    | nil => exact Nat.le_refl 0
    | cons tx vtx ih =>
      rw [length_cons, map_cons, sum_cons]
      have hpos : 4 ≤ tx.getSerializeSize := by
        rw [CTransaction.getSerializeSize]
        omega
      omega
  have hvtx := hlength block.vtx
  rw [getSerializeSize]
  omega

variable {block : CBlock}

theorem withinSize_iff (h : block.vtx ≠ []) :
    block.withinSize = true ↔ block.getSerializeSize ≤ MAX_BLOCK_SIZE_CURRENT := by
  have hlength := block.length_le_getSerializeSize
  simp only [withinSize, Bool.not_eq_true', Bool.or_eq_false_iff, isEmpty_eq_false_iff,
    decide_eq_false_iff_not]
  constructor
  · intro hw
    omega
  · intro hsize
    exact ⟨⟨h, by omega⟩, by omega⟩

theorem withinSigOps_iff :
    block.withinSigOps = true ↔
      (block.vtx.map getLegacySigOpCount).sum ≤ MAX_BLOCK_SIGOPS_LEGACY := by
  simp [withinSigOps]

end CBlock

namespace MinerEnv
variable {env : MinerEnv} {pool : CTxMemPool} {view : CoinsView} {a : Assembly}
  {c : Candidates env.Double}

def NotInChain (pool : CTxMemPool) (view : CoinsView) : Prop :=
  ∀ p : COutPoint, p.hash ∈ poolHashes pool → view.unspent p = none

theorem nodup_poolHashes (h : pool.Keyed) : (poolHashes pool).Nodup := by
  have hkeys : poolHashes pool = pool.mapTx.entries.keys := by
    apply map_congr_left
    intro e he
    exact h e.1 e.2 (AList.mem_lookup_iff.mpr he)
  rw [hkeys]
  exact pool.mapTx.nodupKeys

theorem select_spec (hkeyed : pool.Keyed) (hnew : NotInChain pool view)
    (h : env.select pool view = .ok (a, c)) :
    Assembly.Sound env (poolHashes pool) a ∧ a.hashes.Nodup ∧ c.vecPriority = [] := by
  rw [select] at h
  split at h
  · cases h
  · rename_i start hcollect
    obtain ⟨hstart, hpending⟩ := collect_spec hcollect
    have hnodup := nodup_poolHashes hkeyed
    have hone := nodup_iff_count_le_one.mp hnodup
    have hturns : toCome (poolHashes pool) start ≤ pool.mapTx.entries.length := by
      have hsum := sum_le_card_nsmul ((poolHashes pool).map start.pending) 1
      rw [length_map, nsmul_eq_mul, Nat.mul_one, poolHashes, length_map] at hsum
      apply hsum
      intro n hn
      obtain ⟨x, -, rfl⟩ := mem_map.mp hn
      exact (hpending x).trans (hone x)
    obtain ⟨hsound, honce, hempty⟩ := takeFrom_spec hnodup _ (Assembly.sound_start hnew) hstart
      (fun x => (Nat.zero_add _).trans_le (hpending x)) hturns h
    refine ⟨hsound, nodup_iff_count_le_one.mpr fun x => ?_, hempty⟩
    have hx := honce x
    have hle := hone x
    omega

def plainEnv : MinerEnv where
  node := Node.afterFirst
  Double := Unit
  computePriority := fun _ _ => ()
  allowFree := fun _ => true
  front := fun _ _ => 0

def poolOf (txs : List CTransaction) : CTxMemPool :=
  txs.foldl (fun pool tx => pool.addUnchecked tx.hash ⟨tx, 0⟩) {}

theorem keyed_poolOf (txs : List CTransaction) : (poolOf txs).Keyed := by
  have hfold : ∀ pool : CTxMemPool, pool.Keyed →
      (txs.foldl (fun pool tx => pool.addUnchecked tx.hash ⟨tx, 0⟩) pool).Keyed := by
    induction txs with
    | nil => exact fun pool h => h
    | cons tx txs ih => exact fun pool h => ih _ (CTxMemPool.addUnchecked_keyed ⟨tx, 0⟩ h)
  exact hfold {} keyed_empty

theorem notInChain_paid (h : paidTx.hash ∉ poolHashes pool) : NotInChain pool CoinsView.paid := by
  intro p hp
  have hne : p.hash ≠ paidTx.hash := fun heq => h (heq ▸ hp)
  have hcoins : CoinsView.paid.coins p.hash = none := if_neg hne
  rw [CoinsView.unspent, CoinsMap.coins, hcoins]
  rfl

def childTx : CTransaction where
  hash := 3
  vin := [{ prevout := ⟨spendTx.hash, 0⟩ }]
  vout := [⟨COIN, [0x51], -10⟩]

/- Each takes a coin of `paidTx` and has 7000 signature operations. -/
def multisigTx (n : Nat) : CTransaction where
  hash := BitVec.ofNat 256 (n + 1)
  vin := [{ prevout := ⟨paidTx.hash, n⟩ }]
  vout := [⟨COIN, List.replicate 350 OP_CHECKMULTISIG, -10⟩]

def multisigPool : CTxMemPool := poolOf [multisigTx 0, multisigTx 1, multisigTx 2]

end MinerEnv

end Alqo
