import Alqo.CoinsCacheRuns
import Alqo.UndoRoundTrip

/-!
# Blocks connected through caches (main.cpp, coins.cpp)

`ConnectTip` connects a block on a new cache and flushes it into the coins below. Reads pull entries
into every layer; wherever they fall between the edits, the result is that of the plain view.
-/

namespace Alqo.CoinsStack
open Lib.Simulation Lib.UndoLog List

def edit? : Nat × CoinsOp → Option (uint256 × (CCoins → CCoins))
  | (_, .modifyCoins txid edit) => some (txid, edit)
  | _ => none

/- The entry `UpdateCoins` modifies, and how. -/
def coinEdit (nHeight : Nat) : CoinOp → uint256 × (CCoins → CCoins)
  | .spend prevout => (prevout.hash, fun c => c.spent prevout.n)
  | .create tx => (tx.hash, fun _ => CCoins.fromTx tx nHeight)

def modifyAll (m : CoinsMap) (edits : List (uint256 × (CCoins → CCoins))) : CoinsMap :=
  edits.foldl (fun m e => m.modify e.1 e.2) m

/- A cache of its own over the coins, the calls made on it, and `Flush`. -/
def onNewCache (base : CoinsStack) (ops : List (Nat × CoinsOp)) : Option CoinsStack :=
  match run step (.cache {} base) ops with
  | some (.cache top base, _) => base.batchWrite top.cacheCoins top.hashBlock
  | _ => none

/- One block of `ConnectTip`, with the calls that `ConnectBlock` makes on its view. -/
structure ConnectTurn where
  node : Node
  block : CBlock
  hash : uint256
  pindex : CBlockIndex
  fAlreadyChecked : Bool
  ops : List (Nat × CoinsOp)

namespace ConnectTurn

variable (Hash : Bytes → uint256) (t : ConnectTurn)

def connect (view : CoinsView) : Except Failure CoinsView :=
  (connectBlock Hash t.node t.block t.hash t.pindex view false t.fAlreadyChecked).map Connected.view

/- Reads at any places, and the edits of the block in their order. -/
structure Follows : Prop where
  notGenesis : t.block.getHash Hash ≠ t.node.params.hashGenesisBlock
  own : ∀ i ∈ t.ops, i.1 = 0
  edits : t.ops.filterMap edit? = t.block.coinOps.map (coinEdit t.pindex.nHeight)

end ConnectTurn

variable {top : CCoinsViewCache} {base s : CoinsStack} {m : CoinsMap} {view view' : CoinsView}

theorem editOk_coinEdit (nHeight : Nat) (op : CoinOp) : EditOk (coinEdit nHeight op).2 := by
  cases op with
  | spend prevout => exact CoinsView.spend_editOk prevout.n
  | create tx => exact CoinsView.create_editOk tx nHeight

theorem coins_of_recordAll {nHeight : Nat} {ops : List CoinOp} {log : List CTxInUndo}
    (h : recordAll (CoinOp.record nHeight) view ops = .ok (view', log)) :
    view'.coins = modifyAll view.coins (ops.map (coinEdit nHeight)) := by
  induction ops generalizing view log with
  | nil =>
    cases h
    rfl
  | cons op rest ih =>
    obtain ⟨mid, u, us, hop, hrest, -⟩ := recordAll_cons_ok_iff.mp h
    rw [ih hrest]
    cases op with
    | spend prevout =>
      obtain ⟨-, -, -, -, rfl⟩ := CoinOp.record_spend_ok hop
      rfl
    | create tx =>
      obtain ⟨-, -, rfl⟩ := CoinOp.record_create_ok hop
      rfl

theorem fetchCoins_cache (txid : uint256) :
    ∃ top' base', ((cache top base).fetchCoins txid).2 = cache top' base' := by
  rw [fetchCoins]
  cases top.cacheCoins.lookup txid with
  | some entry => exact ⟨_, _, rfl⟩
  | none =>
    rcases base.fetchCoins txid with ⟨_ | tmp, base'⟩
    · exact ⟨_, _, rfl⟩
    · exact ⟨_, _, rfl⟩

theorem step_cache {op : CoinsOp} {r : CoinsRead} (hinv : (cache top base).Inv)
    (h : step (cache top base) (0, op) = some (s, r)) : ∃ top' base', s = cache top' base' := by
  cases op with
  | getCoins txid =>
    cases h
    exact fetchCoins_cache txid
  | accessCoins txid =>
    cases h
    exact fetchCoins_cache txid
  | haveCoins txid =>
    cases h
    rw [(haveCoins_value _ txid hinv).2]
    exact fetchCoins_cache txid
  | modifyCoins txid edit =>
    cases h
    exact ⟨_, _, rfl⟩
  | flush =>
    obtain ⟨base', hflush, -, -⟩ := flush_spec top base hinv
    rw [step, stepAt, stepTop, hflush] at h
    cases h
    exact ⟨_, _, rfl⟩

theorem run_cache {ops : List (Nat × CoinsOp)}
    (hops : ∀ i ∈ ops, i.1 = 0 ∧ ∀ e, edit? i = some e → EditOk e.2) (hs : Shows (cache top base) m) :
    ∃ top' base' reads, run step (cache top base) ops = some (cache top' base', reads) ∧
      Shows (cache top' base') (modifyAll m (ops.filterMap edit?)) := by
  induction ops generalizing top base m with
  | nil => exact ⟨top, base, [], rfl, hs⟩
  | cons i ops ih =>
    obtain ⟨k, op⟩ := i
    obtain ⟨⟨rfl, hedit⟩, hrest⟩ := forall_mem_cons.mp hops
    have hallowed : Allowed (cache top base) (0, op) := by
      cases op with
      | modifyCoins txid edit => exact ⟨hedit (txid, edit) rfl, trivial⟩
      | _ => trivial
    obtain ⟨s, r, hstep, hshow, -⟩ := step_square _ _ (0, op) hs hallowed
    obtain ⟨top₁, base₁, rfl⟩ := step_cache hs.1 hstep
    obtain ⟨top', base', reads, hrun, hend⟩ := ih hrest hshow
    refine ⟨top', base', r :: reads, by simp only [run, hstep, hrun], ?_⟩
    cases op <;> exact hend

theorem onNewCache_shows {ops : List (Nat × CoinsOp)}
    (hops : ∀ i ∈ ops, i.1 = 0 ∧ ∀ e, edit? i = some e → EditOk e.2) (hs : Shows base m) :
    ∃ base', onNewCache base ops = some base' ∧
      Shows base' (modifyAll m (ops.filterMap edit?)) := by
  have hnew : Shows (cache {} base) m := by
    refine ⟨⟨hs.1, fun x e hx => ?_⟩, ?_⟩
    · simp at hx
    · rw [denote_cache_empty _ _ rfl, hs.2]
  obtain ⟨top, mid, reads, hrun, hshow⟩ := run_cache hops hnew
  obtain ⟨base', hflush, hinv, hden⟩ := flush_spec top mid hshow.1
  rw [flush, Option.map_eq_some_iff] at hflush
  obtain ⟨written, hwritten, heq⟩ := hflush
  cases heq
  refine ⟨_, ?_, hinv, hden.trans hshow.2⟩
  rw [onNewCache, hrun]
  exact hwritten

theorem connect_cached {Hash : Bytes → uint256} {t : ConnectTurn} (ht : t.Follows Hash)
    (h : t.connect Hash view = .ok view') (hs : Shows base view.coins) :
    ∃ base', onNewCache base t.ops = some base' ∧ Shows base' view'.coins := by
  cases hc : connectBlock Hash t.node t.block t.hash t.pindex view false t.fAlreadyChecked with
  | error e =>
    rw [ConnectTurn.connect, hc] at h
    cases h
  | ok c =>
    rw [ConnectTurn.connect, hc] at h
    cases h
    obtain ⟨pprev, -, hbody⟩ := connectBlock_ok ht.notGenesis hc
    obtain ⟨loop, hloop, -, hcoins, -⟩ := connectBlockBody_ok hbody
    obtain ⟨txundos, -, -, hrecord⟩ := connectVtx_record hloop
    have hview : c.view.coins = modifyAll view.coins (t.ops.filterMap edit?) := by
      rw [hcoins, coins_of_recordAll hrecord, ht.edits, CBlock.coinOps]
    rw [hview]
    refine onNewCache_shows (fun i hi => ⟨ht.own i hi, fun e he => ?_⟩) hs
    have hmem : e ∈ t.ops.filterMap edit? := mem_filterMap.mpr ⟨i, hi, he⟩
    rw [ht.edits] at hmem
    obtain ⟨op, -, rfl⟩ := mem_map.mp hmem
    exact editOk_coinEdit t.pindex.nHeight op

theorem foldlM_cached {Hash : Bytes → uint256} {turns : List ConnectTurn}
    (hturns : ∀ t ∈ turns, t.Follows Hash)
    (h : turns.foldlM (fun view t => t.connect Hash view) view = .ok view')
    (hs : Shows s view.coins) :
    ∃ s', turns.foldlM (fun s t => onNewCache s t.ops) s = some s' ∧ Shows s' view'.coins := by
  induction turns generalizing view s with
  | nil =>
    cases h
    exact ⟨s, rfl, hs⟩
  | cons t rest ih =>
    obtain ⟨ht, hrest⟩ := forall_mem_cons.mp hturns
    obtain ⟨mid, hmid, hend⟩ := Lib.Fallible.bind_ok_iff.mp (foldlM_cons.symm.trans h)
    obtain ⟨base, hbase, hshow⟩ := connect_cached ht hmid hs
    obtain ⟨s', hs', hlast⟩ := ih hrest hend hshow
    refine ⟨s', ?_, hlast⟩
    rw [foldlM_cons, hbase]
    exact hs'

/-- Blocks that connect one after another on a plain view connect through caches over any stack of
caches and any database; when everything is flushed, the database holds the coins of the view. -/
theorem connectAll_cached (Hash : Bytes → uint256) (d : CCoinsViewDB) (n : Nat)
    (turns : List ConnectTurn) (hturns : ∀ t ∈ turns, t.Follows Hash) (view view' : CoinsView)
    (hview : view.coins = d.coins)
    (h : turns.foldlM (fun view t => t.connect Hash view) view = .ok view') :
    ∃ s, turns.foldlM (fun s t => onNewCache s t.ops) (newStack d n) = some s ∧
      ∃ s' dones, run step s (flushAll s.depth) = some (s', dones) ∧
        s'.bottom.coins = view'.coins := by
  obtain ⟨s, hs, hshow⟩ := foldlM_cached hturns h (hview ▸ newStack_shows d n)
  obtain ⟨s', dones, hflush, hbottom⟩ := run_flushAll s.depth s rfl hshow.1
  exact ⟨s, hs, s', dones, hflush, hbottom.trans hshow.2⟩

def spendTurn : ConnectTurn where
  node := Node.afterFirst
  block := spendBlock
  hash := spendBlock.getHash hash256
  pindex := CBlockIndex.second spendBlock
  fAlreadyChecked := false
  ops := (0, .haveCoins 1) :: spendBlock.coinOps.map fun op =>
    (0, .modifyCoins (coinEdit 2 op).1 (coinEdit 2 op).2)

theorem connectAll_cached_spendTurn :
    ∃ view s, [spendTurn].foldlM (fun view t => t.connect hash256 view) CoinsView.paid = .ok view ∧
      [spendTurn].foldlM (fun s t => onNewCache s t.ops)
        (newStack { coins := CoinsView.paid.coins } 2) = some s ∧
      ∃ s' dones, run step s (flushAll s.depth) = some (s', dones) ∧
        s'.bottom.coins = view.coins := by
  have hconnects : spendBlock.getHash hash256 ≠ mainParams.hashGenesisBlock ∧
      ∃ c, connectBlock hash256 Node.afterFirst spendBlock (spendBlock.getHash hash256)
        (CBlockIndex.second spendBlock) CoinsView.paid false false = .ok c := by decide +kernel
  obtain ⟨hgen, c, hc⟩ := hconnects
  have hview : [spendTurn].foldlM (fun view t => t.connect hash256 view) CoinsView.paid =
      .ok c.view := by
    rw [foldlM_cons, ConnectTurn.connect]
    simp only [spendTurn]
    rw [hc]
    rfl
  have hturns : ∀ t ∈ [spendTurn], t.Follows hash256 := by
    intro t ht
    rw [mem_singleton.mp ht]
    exact ⟨hgen, by simp [spendTurn], rfl⟩
  obtain ⟨s, hs, hflush⟩ := connectAll_cached hash256 { coins := CoinsView.paid.coins } 2 [spendTurn]
    hturns CoinsView.paid c.view rfl hview
  exact ⟨c.view, s, hview, hs, hflush⟩

end Alqo.CoinsStack
