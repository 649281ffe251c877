import Alqo.UnspentOutputs
import Alqo.ConnectTip

/-!
# The money supply of the tip

Blocks are connected to the tip and disconnected from it in any order. The running total is then
what the coins view holds and what the chain made unspendable.
-/

namespace Alqo
open Lib.Fallible Lib.FixedSum Lib.Holdings Lib.Runs Lib.UndoLog Function List Option

structure SupplyEnv where
  Hash : Bytes → uint256
  params : CChainParams
  maxMoney : 0 ≤ params.nMaxMoneyOut.toInt
  index : BlockMap
  genesis : CBlockIndex
  index_genesis : index.lookup params.hashGenesisBlock = some genesis
  genesis_pprev : genesis.pprev = none
  genesis_supply : genesis.nMoneySupply = 0
  /-- `ReadBlockFromDisk`, which compares the hash -/
  block : uint256 → Option CBlock
  block_hash : ∀ hash b, block hash = some b → b.getHash Hash = hash

/-- Index, active chain from the tip down, `pcoinsTip` and undo file. -/
structure Ledger where
  mapBlockIndex : BlockMap
  chain : List uint256
  view : CoinsView
  undo : uint256 → Option (List CTxUndo) := fun _ => none

inductive TipEvent where
  /-- `ConnectTip`; sporks, clock and payments are those of the node. -/
  | connect (node : Node) (hash : uint256) (fAlreadyChecked : Bool)
  /-- `DisconnectTip` -/
  | disconnect

namespace Ledger
variable (env : SupplyEnv)

def start : Ledger where
  mapBlockIndex := env.index
  chain := [env.params.hashGenesisBlock]
  view := ⟨fun _ => none, env.params.hashGenesisBlock⟩

def accept (s : Ledger) (hash : uint256) (pindexNew : CBlockIndex) (c : Connected) : Ledger where
  mapBlockIndex := s.mapBlockIndex.insert hash c.pindex
  chain := hash :: s.chain
  view := c.view
  undo := if pindexNew.nStatus.fHaveUndo then s.undo else update s.undo hash (some c.vtxundo)

/-- `ConnectTip`. -/
def connect (s : Ledger) (node : Node) (hash : uint256) (fAlreadyChecked : Bool) : Ledger :=
  match s.mapBlockIndex.lookup hash, env.block hash with
  | some pindexNew, some block =>
    match connectTip env.Hash { node with
        params := env.params
        mapBlockIndex := s.mapBlockIndex
        chainActive := s.chain.reverse } block hash pindexNew s.view [] fAlreadyChecked with
    | .connected c => s.accept hash pindexNew c
    | .failed pindex _ => { s with mapBlockIndex := s.mapBlockIndex.insert hash pindex }
    | .crashed _ => s
  | _, _ => s

/-- `DisconnectTip`; the view is kept only if it is clean. -/
def disconnect (s : Ledger) : Ledger :=
  match s.chain with
  | [] => s
  | hash :: rest =>
    match s.mapBlockIndex.lookup hash, env.block hash with
    | some pindexDelete, some block =>
      match disconnectBlock block hash pindexDelete s.view (s.undo hash) with
      | .ok (view, true) => { s with chain := rest, view := view }
      | _ => s
    | _, _ => s

def step (s : Ledger) : TipEvent → Ledger
  | .connect node hash fAlreadyChecked => s.connect env node hash fAlreadyChecked
  | .disconnect => s.disconnect env

end Ledger

namespace SupplyEnv
variable (env : SupplyEnv)

def vtx (hash : uint256) : List CTransaction := ((env.block hash).map CBlock.vtx).getD []

def pprev (hash : uint256) : Option uint256 := (env.index.lookup hash).bind fun e => e.pprev

def IsChain : List uint256 → Prop
  | [] => False
  | [hash] => hash = env.params.hashGenesisBlock
  | hash :: p :: rest => env.pprev hash = some p ∧ IsChain (p :: rest)

def unspentAfter : List uint256 → Unspent
  | [] => fun _ => none
  | hash :: rest =>
    if rest = [] then fun _ => none else run Unspent.connectTx (unspentAfter rest) (env.vtx hash)

def unspendable : List uint256 → Int
  | [] => 0
  | hash :: rest =>
    if rest = [] then 0
    else ((env.vtx hash).map CTransaction.unspendableOut).sum + unspendable rest

noncomputable def supplyOf (chain : List uint256) : Int :=
  (env.unspentAfter chain).value + env.unspendable chain

theorem pprev_genesis : env.pprev env.params.hashGenesisBlock = none := by
  rw [pprev, env.index_genesis, bind_some, env.genesis_pprev]

variable {env} {hash : uint256} {chain chain' : List uint256}

theorem IsChain.unique (h : env.IsChain (hash :: chain)) (h' : env.IsChain (hash :: chain')) :
    chain = chain' := by
  induction chain generalizing hash chain' with
  | nil =>
    have hgenesis : hash = env.params.hashGenesisBlock := h
    cases chain' with
    | nil => rfl
    | cons p rest =>
      have hp : env.pprev hash = some p := h'.1
      rw [hgenesis, env.pprev_genesis] at hp
      cases hp
  | cons p rest ih =>
    have hp : env.pprev hash = some p := h.1
    cases chain' with
    | nil =>
      have hgenesis : hash = env.params.hashGenesisBlock := h'
      rw [hgenesis, env.pprev_genesis] at hp
      cases hp
    | cons p' rest' =>
      have hp' : env.pprev hash = some p' := h'.1
      obtain rfl : p = p' := Option.some.inj (hp.symm.trans hp')
      rw [ih h.2 h'.2]

theorem IsChain.suffix (h : env.IsChain chain) (hs : hash :: chain' <:+ chain) :
    env.IsChain (hash :: chain') := by
  induction chain with
  | nil => exact h.elim
  | cons a rest ih =>
    rcases suffix_cons_iff.mp hs with heq | hs
    · rw [heq]
      exact h
    · cases rest with
      | nil => exact absurd (suffix_nil.mp hs) (cons_ne_nil _ _)
      | cons p rest => exact ih h.2 hs

theorem IsChain.notMem (h : env.IsChain (hash :: chain)) : hash ∉ chain := by
  intro hmem
  obtain ⟨above, below, hsplit⟩ := append_of_mem hmem
  have hsuffix : hash :: below <:+ hash :: chain := by
    rw [hsplit]
    exact ⟨hash :: above, rfl⟩
  have hbelow := (h.suffix hsuffix).unique h
  have hlen := congrArg List.length hsplit
  rw [hbelow, length_append, length_cons] at hlen
  omega

end SupplyEnv

theorem CoinsView.bounded_unspent (view : CoinsView) : Bounded view.unspent := by
  have hsub : {p | view.unspent p ≠ none} ⊆ ⋃ txid : uint256,
      (fun n => (⟨txid, n⟩ : COutPoint)) '' (Finset.range (view.coins.coins txid).vout.length) := by
    intro p hp
    refine Set.mem_iUnion.mpr ⟨p.hash, p.n, ?_, rfl⟩
    rw [Finset.mem_coe, Finset.mem_range]
    by_contra hlen
    refine hp ?_
    rw [CoinsView.unspent, CCoins.unspent, getElem?_eq_none (by omega)]
    rfl
  exact (Set.finite_iUnion fun txid => (Finset.finite_toSet _).image _).subset hsub

section
variable {node : Node} {fScriptChecks : Bool} {nHeight : Nat} {pindexPrev : CBlockIndex}

/-- Over the loop of `ConnectBlock` the value of the unspent outputs changes by what goes
out less what comes in, but for what cannot be spent. -/
theorem connectVtx_value {vtx : List CTransaction} {view : CoinsView} {s : ConnectState}
    (hmax : 0 ≤ node.params.nMaxMoneyOut.toInt)
    (hindex : node.mapBlockIndex.lookup view.hashBlock = some pindexPrev)
    (h : connectVtx node fScriptChecks nHeight vtx { view := view } = .ok s) :
    Accounts view.hashBlock s (exactBlock nHeight vtx view) ∧
      Unspent.value s.view.unspent + (vtx.map CTransaction.unspendableOut).sum =
        Unspent.value view.unspent + (exactBlock nHeight vtx view).out -
          (exactBlock nHeight vtx view).inp := by
  have hstart : Accounts view.hashBlock { view := view } (exactBlock nHeight [] view) :=
    ⟨rfl, rfl, tracks_zero, tracks_zero, tracks_zero, le_rfl⟩
  refine runFrom_induct (fun seen s => Accounts view.hashBlock s (exactBlock nHeight seen view) ∧
    Unspent.value s.view.unspent + (seen.map CTransaction.unspendableOut).sum =
      Unspent.value view.unspent + (exactBlock nHeight seen view).out -
        (exactBlock nHeight seen view).inp) ?_ [] ⟨hstart, by simp [exactBlock]⟩ h
  rintro seen tx s s' ⟨hacc, hvalue⟩ hstep
  obtain ⟨hfits, hafter, -⟩ := connectTx_unspent hstep
  have hblock : exactBlock nHeight (seen ++ [tx]) view =
      exactTx nHeight (exactBlock nHeight seen view) tx := by
    rw [exactBlock, foldl_append]
    rfl
  refine ⟨hblock ▸ (connectTx_accounts hmax hindex hacc hstep).1, ?_⟩
  have htx := Unspent.value_connectTx s.view.bounded_unspent hfits
  have hin : exactSum (tx.spends.map fun p => ((s.view.unspent p).map CTxOut.nValue).getD 0) =
      (exactBlock nHeight seen view).view.exactValueIn tx.spends := by
    rw [← hacc.view]
    rfl
  rw [hin] at htx
  rw [hafter, hblock, map_append, sum_append, map_singleton, sum_singleton]
  simp only [exactTx]
  omega

end

structure Ledger.Sound (env : SupplyEnv) (s : Ledger) : Prop where
  links : ∀ hash, (s.mapBlockIndex.lookup hash).map (fun e => e.pprev) =
    (env.index.lookup hash).map fun e => e.pprev
  chain : env.IsChain s.chain
  best : s.chain.head? = some s.view.hashBlock
  unspent : s.view.unspent = env.unspentAfter s.chain
  fits : ∀ hash rest, rest ≠ [] → hash :: rest <:+ s.chain →
    Along Unspent.connectTx Unspent.TxFits (env.unspentAfter rest) (env.vtx hash)
  supply : ∀ hash rest, hash :: rest <:+ s.chain → ∃ pindex,
    s.mapBlockIndex.lookup hash = some pindex ∧
      Tracks pindex.nMoneySupply (env.supplyOf (hash :: rest))
  undo : ∀ hash rest vtxundo, s.undo hash = some vtxundo → rest ≠ [] → env.IsChain (hash :: rest) →
    vtxundo.map CTxUndo.outs = (Unspent.spentOuts (env.unspentAfter rest) (env.vtx hash)).tail

namespace Ledger.Sound
variable {env : SupplyEnv} {s : Ledger} {hash : uint256} {pindex pindexNew : CBlockIndex}
  {block : CBlock} {c : Connected}

theorem start (env : SupplyEnv) : Ledger.Sound env (Ledger.start env) where
  links _ := rfl
  chain := rfl
  best := rfl
  unspent := rfl
  fits := by
    intro hash rest hne hsuffix
    rcases suffix_cons_iff.mp hsuffix with heq | hnil
    · exact absurd (List.cons.inj heq).2 hne
    · exact absurd (suffix_nil.mp hnil) (cons_ne_nil _ _)
  supply := by
    intro hash rest hsuffix
    rcases suffix_cons_iff.mp hsuffix with heq | hnil
    · obtain ⟨rfl, rfl⟩ := List.cons.inj heq
      refine ⟨env.genesis, env.index_genesis, ?_⟩
      have hzero : env.supplyOf [env.params.hashGenesisBlock] = 0 := by
        rw [SupplyEnv.supplyOf, SupplyEnv.unspentAfter, if_pos rfl, SupplyEnv.unspendable,
          if_pos rfl, Unspent.value, total_empty, Int.add_zero]
      rw [env.genesis_supply, hzero]
      exact tracks_zero
    · exact absurd (suffix_nil.mp hnil) (cons_ne_nil _ _)
  undo := by
    intro hash rest vtxundo hundo
    cases hundo

section
variable (h : s.Sound env)
include h

section
variable (hlookup : s.mapBlockIndex.lookup hash = some pindex)
include hlookup

theorem pprev_eq : env.pprev hash = pindex.pprev := by
  have hlink := h.links hash
  rw [hlookup, map_some] at hlink
  rw [SupplyEnv.pprev]
  cases hindex : env.index.lookup hash with
  | none =>
    rw [hindex] at hlink
    cases hlink
  | some e =>
    rw [hindex] at hlink
    exact (Option.some.inj hlink).symm

theorem links_insert {pindex' : CBlockIndex} (hpprev : pindex'.pprev = pindex.pprev) (x : uint256) :
    ((s.mapBlockIndex.insert hash pindex').lookup x).map (fun e => e.pprev) =
      (env.index.lookup x).map fun e => e.pprev := by
  rw [← h.links x]
  by_cases hx : x = hash
  · rw [hx, AList.lookup_insert, hlookup, map_some, map_some, hpprev]
  · rw [AList.lookup_insert_ne hx]

theorem isChain_cons (hpprev : pindex.pprev = s.chain.head?) : env.IsChain (hash :: s.chain) := by
  have hchain := h.chain
  have hp := h.pprev_eq hlookup
  rw [hpprev] at hp
  cases hs : s.chain with
  | nil =>
    rw [hs] at hchain
    exact hchain.elim
  | cons tip rest =>
    rw [hs] at hchain hp
    exact ⟨hp, hchain⟩

end

theorem supply_insert (hnew : env.IsChain (hash :: s.chain)) (x : uint256) (rest : List uint256)
    (hsuffix : x :: rest <:+ s.chain) : ∃ e,
      (s.mapBlockIndex.insert hash pindex).lookup x = some e ∧
        Tracks e.nMoneySupply (env.supplyOf (x :: rest)) := by
  obtain ⟨e, hlookup, htracks⟩ := h.supply x rest hsuffix
  have hne : x ≠ hash := by
    rintro rfl
    exact hnew.notMem (hsuffix.subset mem_cons_self)
  exact ⟨e, by rw [AList.lookup_insert_ne hne]; exact hlookup, htracks⟩

/-- What `ConnectBlock` leaves behind for a block on top of the active chain. -/
structure Extends (env : SupplyEnv) (s : Ledger) (hash : uint256) (pindexNew : CBlockIndex)
    (c : Connected) : Prop where
  pprev : c.pindex.pprev = pindexNew.pprev
  best : c.view.hashBlock = hash
  unspent : c.view.unspent = env.unspentAfter (hash :: s.chain)
  fits : Along Unspent.connectTx Unspent.TxFits (env.unspentAfter s.chain) (env.vtx hash)
  supply : Tracks c.pindex.nMoneySupply (env.supplyOf (hash :: s.chain))
  undo : c.vtxundo.map CTxUndo.outs =
    (Unspent.spentOuts (env.unspentAfter s.chain) (env.vtx hash)).tail

theorem extends_of_connectBlock {node : Node} {fAlreadyChecked : Bool}
    (hparams : node.params = env.params) (hmap : node.mapBlockIndex = s.mapBlockIndex)
    (hpprev : pindexNew.pprev = s.chain.head?)
    (hlookup : s.mapBlockIndex.lookup hash = some pindexNew) (hblock : env.block hash = some block)
    (hc : connectBlock env.Hash node block hash pindexNew s.view false fAlreadyChecked = .ok c) :
    Extends env s hash pindexNew c := by
  have hne : s.chain ≠ [] := by
    intro hnil
    have hchain := h.chain
    rw [hnil] at hchain
    exact hchain
  have hvtx : env.vtx hash = block.vtx := by
    rw [SupplyEnv.vtx, hblock]
    rfl
  -- the tip has an entry with the right counter
  obtain ⟨rest, htip⟩ : ∃ rest, s.chain = s.view.hashBlock :: rest := by
    cases hs : s.chain with
    | nil => exact absurd hs hne
    | cons tip rest =>
      have hbest := h.best
      rw [hs] at hbest
      rw [← Option.some.inj hbest]
      exact ⟨rest, rfl⟩
  obtain ⟨pprev, hprev, htracks⟩ := h.supply s.view.hashBlock rest (htip ▸ suffix_refl _)
  rw [← htip] at htracks
  have hgen : block.getHash env.Hash ≠ node.params.hashGenesisBlock := by
    rw [env.block_hash hash block hblock, hparams]
    intro hgenesis
    have hp := h.pprev_eq hlookup
    rw [hgenesis, env.pprev_genesis, hpprev, h.best] at hp
    cases hp
  obtain ⟨pprev', henter, hbody⟩ := connectBlock_ok hgen hc
  have hparent := henter.parent
  rw [hpprev, h.best, bind_some, hmap, hprev] at hparent
  obtain rfl := Option.some.inj hparent
  obtain ⟨loop, hloop, -, hcoins, hundo, hconnected⟩ := connectBlockBody_ok hbody
  obtain ⟨hbest, hpindex⟩ := hconnected rfl
  have hindex : node.mapBlockIndex.lookup s.view.hashBlock = some pprev := hmap ▸ hprev
  obtain ⟨hafter, hfits, houts⟩ := connectVtx_unspent hloop
  obtain ⟨hacc, hvalue⟩ := connectVtx_value (hparams ▸ env.maxMoney) hindex hloop
  have hview : c.view.unspent = loop.view.unspent := by
    funext p
    rw [CoinsView.unspent, CoinsView.unspent, hcoins]
  have hunspent : c.view.unspent = env.unspentAfter (hash :: s.chain) := by
    rw [hview, hafter, SupplyEnv.unspentAfter, if_neg hne, hvtx, h.unspent]
  refine ⟨?_, hbest, hunspent, ?_, ?_, ?_⟩
  · rw [hpindex]
    rfl
  · rw [hvtx, ← h.unspent]
    exact hfits
  · have hsupply : c.pindex.nMoneySupply = pprev.nMoneySupply + loop.nValueOut - loop.nValueIn := by
      rw [hpindex]
      rfl
    have hexact : env.supplyOf (hash :: s.chain) = env.supplyOf s.chain +
        (exactBlock pindexNew.nHeight block.vtx s.view).out -
        (exactBlock pindexNew.nHeight block.vtx s.view).inp := by
      rw [SupplyEnv.supplyOf, ← hunspent, hview, SupplyEnv.unspendable, if_neg hne, hvtx,
        SupplyEnv.supplyOf, ← h.unspent]
      omega
    rw [hsupply, hexact]
    exact tracks_sub (tracks_add htracks hacc.out) hacc.inp
  · rw [hundo, houts, hvtx, h.unspent]

theorem accept (hlookup : s.mapBlockIndex.lookup hash = some pindexNew)
    (hnew : env.IsChain (hash :: s.chain)) (hc : Extends env s hash pindexNew c) :
    (s.accept hash pindexNew c).Sound env where
  links := h.links_insert hlookup hc.pprev
  chain := hnew
  best := by rw [← hc.best]; rfl
  unspent := hc.unspent
  fits := by
    intro x rest hne hsuffix
    rcases suffix_cons_iff.mp hsuffix with heq | hsuffix
    · obtain ⟨rfl, rfl⟩ := List.cons.inj heq
      exact hc.fits
    · exact h.fits x rest hne hsuffix
  supply := by
    intro x rest hsuffix
    rcases suffix_cons_iff.mp hsuffix with heq | hsuffix
    · obtain ⟨rfl, rfl⟩ := List.cons.inj heq
      exact ⟨c.pindex, AList.lookup_insert _, hc.supply⟩
    · exact h.supply_insert hnew x rest hsuffix
  undo := by
    intro x rest vtxundo hundo hne hchain
    have hundo' : (if pindexNew.nStatus.fHaveUndo then s.undo
        else update s.undo hash (some c.vtxundo)) x = some vtxundo := hundo
    split_ifs at hundo' with hhave
    · exact h.undo x rest vtxundo hundo' hne hchain
    · by_cases hx : x = hash
      · subst hx
        rw [update_self] at hundo'
        cases hundo'
        rw [hchain.unique hnew]
        exact hc.undo
      · rw [update_of_ne hx] at hundo'
        exact h.undo x rest vtxundo hundo' hne hchain

theorem reject (hlookup : s.mapBlockIndex.lookup hash = some pindexNew)
    (hnew : env.IsChain (hash :: s.chain)) (hpprev : pindex.pprev = pindexNew.pprev) :
    Ledger.Sound env { s with mapBlockIndex := s.mapBlockIndex.insert hash pindex } where
  links := h.links_insert hlookup hpprev
  chain := h.chain
  best := h.best
  unspent := h.unspent
  fits := h.fits
  supply := h.supply_insert hnew
  undo := h.undo

theorem connect (node : Node) (hash : uint256) (fAlreadyChecked : Bool) :
    (s.connect env node hash fAlreadyChecked).Sound env := by
  unfold Ledger.connect
  cases hlookup : s.mapBlockIndex.lookup hash with
  | none => exact h
  | some pindexNew =>
  cases hblock : env.block hash with
  | none => exact h
  | some block =>
  unfold connectTip
  dsimp only
  by_cases htip : pindexNew.pprev = s.chain.reverse.getLast?
  swap
  · rw [if_pos htip]
    exact h
  rw [if_neg (not_not.mpr htip)]
  rw [getLast?_reverse] at htip
  have hnew := h.isChain_cons hlookup htip
  cases hc : connectBlock env.Hash { node with
      params := env.params
      mapBlockIndex := s.mapBlockIndex
      chainActive := s.chain.reverse } block hash pindexNew s.view false fAlreadyChecked with
  | ok c => exact h.accept hlookup hnew (h.extends_of_connectBlock rfl rfl htip hlookup hblock hc)
  | error e =>
    cases e with
    | reject verdict =>
      dsimp only
      unfold invalidBlockFound
      cases verdict.corruptionPossible with
      | true => exact h.reject hlookup hnew rfl
      | false => exact h.reject hlookup hnew rfl
    | choked => exact h.reject hlookup hnew rfl
    | throws what => exact h
    | assertion what => exact h
    | outOfBounds => exact h

omit h in
theorem disconnectBlock_ok {view view' : CoinsView} {blockUndo : Option (List CTxUndo)}
    (h : disconnectBlock block hash pindex view blockUndo = .ok (view', true)) :
    ∃ vtxundo view'', blockUndo = some vtxundo ∧ vtxundo.length + 1 = block.vtx.length ∧
      view.disconnectVtx pindex.nHeight (block.vtx.zip (none :: vtxundo.map some)) =
        .ok (view'', true) ∧
      view'.unspent = view''.unspent ∧ pindex.pprev = some view'.hashBlock := by
  unfold disconnectBlock at h
  by_cases hhash : hash = view.hashBlock
  swap
  · rw [if_pos hhash] at h
    cases h
  rw [if_neg (not_not.mpr hhash)] at h
  cases hundo : pindex.nStatus.fHaveUndo with
  | false =>
    rw [hundo, if_pos Bool.not_false] at h
    cases h
  | true =>
  rw [hundo, if_neg (by simp)] at h
  cases blockUndo with
  | none => cases h
  | some vtxundo =>
  dsimp only at h
  by_cases hlen : vtxundo.length + 1 = block.vtx.length
  swap
  · rw [if_pos hlen] at h
    cases h
  rw [if_neg (not_not.mpr hlen)] at h
  cases hloop : view.disconnectVtx pindex.nHeight (block.vtx.zip (none :: vtxundo.map some)) with
  | error e =>
    rw [hloop] at h
    cases h
  | ok r =>
    rw [hloop] at h
    cases hp : pindex.pprev with
    | none =>
      rw [hp] at h
      cases h
    | some p =>
      rw [hp] at h
      obtain ⟨view'', fClean⟩ := r
      cases h
      exact ⟨vtxundo, view'', rfl, hlen, hloop, rfl, rfl⟩

theorem disconnect : (s.disconnect env).Sound env := by
  unfold Ledger.disconnect
  cases hs : s.chain with
  | nil => exact h
  | cons hash rest =>
  dsimp only
  cases hlookup : s.mapBlockIndex.lookup hash with
  | none => exact h
  | some pindexDelete =>
  cases hblock : env.block hash with
  | none => exact h
  | some block =>
  dsimp only
  split
  swap
  · exact h
  rename_i view hview
  obtain ⟨vtxundo, view', hundo, hlen, hloop, hunspent, hpprev⟩ := disconnectBlock_ok hview
  have hvtx : env.vtx hash = block.vtx := by
    rw [SupplyEnv.vtx, hblock]
    rfl
  have hchain := h.chain
  have hp := h.pprev_eq hlookup
  rw [hs] at hchain
  rw [hpprev] at hp
  -- the genesis block has no parent, so something is left below the tip
  cases hrest : rest with
  | nil =>
    have hgenesis : hash = env.params.hashGenesisBlock := by
      rw [hrest] at hchain
      exact hchain
    rw [hgenesis, env.pprev_genesis] at hp
    cases hp
  | cons p below =>
  rw [← hrest]
  have hne : rest ≠ [] := by
    rw [hrest]
    exact cons_ne_nil _ _
  have hlink : env.pprev hash = some p ∧ env.IsChain rest := by
    rw [hrest] at hchain ⊢
    exact hchain
  have hsub : rest <:+ s.chain := hs ▸ suffix_cons hash rest
  have hspent := h.undo hash rest vtxundo hundo hne hchain
  have hgiven : List.Forall₂ (fun d outs => ∀ txundo, d = some txundo → txundo.outs = outs)
      (none :: vtxundo.map some) (Unspent.spentOuts (env.unspentAfter rest) block.vtx) := by
    rw [hvtx] at hspent
    cases hblk : block.vtx with
    | nil =>
      rw [hblk] at hlen
      cases hlen
    | cons tx txs =>
      rw [hblk, Unspent.spentOuts, tail_cons] at hspent
      rw [Unspent.spentOuts, ← hspent]
      refine List.Forall₂.cons (fun _ hd => by cases hd) ?_
      rw [forall₂_map_left_iff, forall₂_map_right_iff, forall₂_same]
      intro txundo _ d hd
      rw [Option.some.inj hd]
  have hbefore : s.view.unspent = run Unspent.connectTx (env.unspentAfter rest) block.vtx := by
    rw [h.unspent, hs, SupplyEnv.unspentAfter, if_neg hne, hvtx]
  have hfits := h.fits hash rest hne (hs ▸ suffix_refl _)
  rw [hvtx] at hfits
  exact {
    links := h.links
    chain := hlink.2
    best := by rw [hrest, head?_cons, ← hlink.1, hp]
    unspent := hunspent.trans (CoinsView.unspent_disconnectVtx hfits hgiven hbefore hloop)
    fits := fun x below hb hx => h.fits x below hb (hx.trans hsub)
    supply := fun x below hx => h.supply x below (hx.trans hsub)
    undo := h.undo }

theorem step (e : TipEvent) : (s.step env e).Sound env := by
  cases e with
  | connect node hash fAlreadyChecked => exact h.connect node hash fAlreadyChecked
  | disconnect => exact h.disconnect

end

theorem run (env : SupplyEnv) (events : List TipEvent) :
    Ledger.Sound env (Lib.Runs.run (Ledger.step env) (Ledger.start env) events) := by
  have hstep : ∀ s e, Ledger.Sound env s → Ledger.Sound env (s.step env e) := fun _ e h => h.step e
  exact run_induct hstep _ events (start env)

end Ledger.Sound

/-- After any connections and disconnections the counter of the tip is the value of the
unspent outputs and of those that the active chain made unspendable, modulo `2 ^ 64`,
and exactly so as long as that fits. -/
theorem moneySupply_eq_outputs (env : SupplyEnv) (events : List TipEvent) :
    let s := run (Ledger.step env) (Ledger.start env) events
    let total := Unspent.value s.view.unspent + env.unspendable s.chain
    ∃ tip rest pindex, s.chain = tip :: rest ∧ s.view.hashBlock = tip ∧
      s.mapBlockIndex.lookup tip = some pindex ∧ Tracks pindex.nMoneySupply total ∧
      (-2 ^ 63 ≤ total → total < 2 ^ 63 → pindex.nMoneySupply.toInt = total) := by
  intro s total
  have h : s.Sound env := Ledger.Sound.run env events
  cases hs : s.chain with
  | nil =>
    have hchain := h.chain
    rw [hs] at hchain
    exact hchain.elim
  | cons tip rest =>
    have hbest := h.best
    rw [hs] at hbest
    obtain ⟨pindex, hlookup, htracks⟩ := h.supply tip rest (hs ▸ suffix_refl _)
    have htotal : env.supplyOf (tip :: rest) = total := by
      rw [SupplyEnv.supplyOf, ← hs, ← h.unspent]
    rw [htotal] at htracks
    refine ⟨tip, rest, pindex, rfl, (Option.some.inj hbest).symm, hlookup, htracks, ?_⟩
    intro hlow hhigh
    exact toInt_of_tracks htracks hlow hhigh

def burningCoinBase : CTransaction where
  hash := firstHeader.hashMerkleRoot
  vin := [{ prevout := COutPoint.null, scriptSig := [0x51, 0x00] }]
  vout := [⟨3 * COIN, [0x51], -10⟩, ⟨2 * COIN, [0x6a], -10⟩]

def burningBlock : CBlock := { firstHeader with vtx := [burningCoinBase] }

def burningEnv : SupplyEnv where
  Hash := fun _ => 7
  params := mainParams
  maxMoney := by decide
  index := (AList.singleton mainParams.hashGenesisBlock {}).insert 7
    { CBlockIndex.ofBlock burningBlock with
      pprev := some mainParams.hashGenesisBlock
      nHeight := 1
      nStatus := { nValid := BlockStatus.VALID_TRANSACTIONS, fHaveData := true } }
  genesis := {}
  index_genesis := by decide +kernel
  genesis_pprev := rfl
  genesis_supply := rfl
  block := fun hash => if hash = 7 then some burningBlock else none
  block_hash := by
    intro hash b h
    split_ifs at h with hhash
    exact hhash.symm

/-- Connected, disconnected and connected again, the block has a supply of five coins. -/
theorem burningBlock_supply :
    let events := [.connect Node.afterFirst 7 false, .disconnect, .connect Node.afterFirst 7 false]
    let s := run (Ledger.step burningEnv) (Ledger.start burningEnv) events
    s.chain = [7, mainParams.hashGenesisBlock] ∧ burningEnv.unspendable s.chain = 2 * 100000000 ∧
      (∃ pindex, s.mapBlockIndex.lookup 7 = some pindex ∧ pindex.nMoneySupply = 5 * COIN) ∧
      Tracks (5 * COIN) (Unspent.value s.view.unspent + 2 * 100000000) := by
  intro events s
  have hrun : s.chain = [7, mainParams.hashGenesisBlock] ∧
      burningEnv.unspendable s.chain = 2 * 100000000 ∧
      (s.mapBlockIndex.lookup 7).map CBlockIndex.nMoneySupply = some (5 * COIN) := by
    decide +kernel
  obtain ⟨hchain, hburnt, hsupply⟩ := hrun
  obtain ⟨tip, rest, pindex, htip, -, hlookup, htracks, -⟩ :=
    moneySupply_eq_outputs burningEnv events
  have hseven : tip = 7 := (List.cons.inj (htip.symm.trans hchain)).1
  rw [hseven] at hlookup
  have hmoney : pindex.nMoneySupply = 5 * COIN := by
    rw [show s.mapBlockIndex.lookup 7 = some pindex from hlookup] at hsupply
    exact Option.some.inj hsupply
  rw [hmoney] at htracks
  refine ⟨hchain, hburnt, ⟨pindex, hlookup, hmoney⟩, ?_⟩
  rw [← hburnt]
  exact htracks

end Alqo
