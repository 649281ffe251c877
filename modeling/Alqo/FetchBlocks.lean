import Alqo.ActiveChain
import Alqo.Downloads
import Alqo.IndexRuns

/-!
# Which blocks to ask a peer for (main.cpp)

`FindNextBlocksToDownload` walks up to the best block of the peer in batches and takes what is
neither stored nor asked for.
-/

namespace Alqo
open Lib.Branches List Option

namespace LinkMap

variable {K : Type} [DecidableEq K] {t : LinkMap K}

/- The loop of `LastCommonAncestor`, and its assertion. -/
def meet (t : LinkMap K) : (turns : Nat) → (pa pb : Option K) → Option (Option K)
  | 0, pa, pb => if pa = pb then some pa else none
  | turns + 1, some a, some b =>
    if a = b then some (some a) else meet t turns (t.pprev a) (t.pprev b)
  | _ + 1, pa, pb => if pa = pb then some pa else none

def level (t : LinkMap K) (pa : K) (nHeight : Nat) : Option (Option K) :=
  if t.nHeight pa > nHeight then t.getAncestor pa nHeight else some (some pa)

def lastCommonAncestor (t : LinkMap K) (pa pb : K) : Option (Option K) := do
  let a ← t.level pa (t.nHeight pb)
  let b ← t.level pb (t.nHeight pa)
  t.meet (t.nHeight pa + 1) a b

/- What stands before a block in `vToFetch`, which is filled downwards. -/
def backList (t : LinkMap K) : Nat → K → List K → Option (List K)
  | 0, k, l => some (k :: l)
  | n + 1, k, l => (t.pprev k).bind fun p => backList t n p (k :: l)

structure IsLastCommon (t : LinkMap K) (a b k : K) : Prop where
  left : k ∈ t.branch a
  right : k ∈ t.branch b
  last : ∀ x, x ∈ t.branch a → x ∈ t.branch b → t.nHeight x ≤ t.nHeight k

variable {a : K}

variable {g b : K}

theorem meet_spec (ht : t.Linked) (hg : CChain.EndsIn t g) (ha : t a ≠ none) (hb : t b ≠ none)
    (hheight : t.nHeight a = t.nHeight b) {turns : Nat} (hturns : t.nHeight a < turns) :
    ∃ k, t.meet turns (some a) (some b) = some (some k) ∧ IsLastCommon t a b k := by
  induction turns generalizing a b with
  | zero => omega
  | succ turns ih =>
    rw [meet]
    by_cases heq : a = b
    · rw [if_pos heq, ← heq]
      exact ⟨a, rfl, self_mem_branch a, self_mem_branch a, fun x hx _ => height_le_of_mem ht.graded hx⟩
    · rw [if_neg heq]
      cases hpa : t.pprev a with
      | none =>
        -- at height zero both are the genesis block
        have hzero := ht.rooted a hpa
        cases hpb : t.pprev b with
        | none => exact absurd ((hg a ha hpa).trans (hg b hb hpb).symm) heq
        | some pb =>
          have hpos := ht.graded b pb hpb
          omega
      | some pa =>
        have hposa := ht.graded a pa hpa
        cases hpb : t.pprev b with
        | none =>
          have hzero := ht.rooted b hpb
          omega
        | some pb =>
          have hposb := ht.graded b pb hpb
          obtain ⟨k, hk, hlast⟩ := ih (ht.known a pa hpa) (ht.known b pb hpb) (by omega) (by omega)
          refine ⟨k, hk, (mem_branch_iff ht.graded).mpr (.inr ⟨pa, hpa, hlast.left⟩),
            (mem_branch_iff ht.graded).mpr (.inr ⟨pb, hpb, hlast.right⟩), fun x hxa hxb => ?_⟩
          have hbelow : ∀ {c d p : K}, t.pprev c = some p → t.nHeight c = t.nHeight d → c ≠ d →
              x ∈ t.branch c → x ∈ t.branch d → x ∈ t.branch p := by
            intro c d p hp hcd hne hxc hxd
            rcases (mem_branch_iff ht.graded).mp hxc with rfl | ⟨q, hq, hxq⟩
            · exact absurd (eq_of_mem_of_height ht.graded hxd (self_mem_branch d) hcd) hne
            · rw [hp] at hq
              cases hq
              exact hxq
          exact hlast.last x (hbelow hpa hheight heq hxa hxb)
            (hbelow hpb hheight.symm (Ne.symm heq) hxb hxa)

variable {n : Nat}

omit [DecidableEq K] in
theorem level_spec (ht : t.Skips) :
    ∃ k, t.level a n = some (some k) ∧ k ∈ t.branch a ∧ t.nHeight k = min (t.nHeight a) n := by
  rw [level]
  split_ifs with hlt
  · obtain ⟨k, hk⟩ := exists_ancestorAt ht.linked.graded ht.linked.rooted
      (show n ≤ t.nHeight a by omega)
    have hat := height_of_ancestorAt ht.linked.graded hk
    refine ⟨k, ?_, mem_of_ancestorAt hk, by omega⟩
    rw [getAncestor, getAncestorIn_eq ht.linked (fun a _ => ht.right a) (by omega) (by omega),
      ancestorAt, hk]
  · exact ⟨a, rfl, self_mem_branch a, by omega⟩

theorem lastCommonAncestor_spec (ht : t.Skips) (hg : CChain.EndsIn t g) (ha : t a ≠ none)
    (hb : t b ≠ none) :
    ∃ k, t.lastCommonAncestor a b = some (some k) ∧ IsLastCommon t a b k := by
  have hgraded := ht.linked.graded
  obtain ⟨a', hla, hamem, haheight⟩ := level_spec ht (a := a) (n := t.nHeight b)
  obtain ⟨b', hlb, hbmem, hbheight⟩ := level_spec ht (a := b) (n := t.nHeight a)
  obtain ⟨k, hk, hlast⟩ := meet_spec ht.linked hg (ht.linked.known_of_mem ha hamem)
    (ht.linked.known_of_mem hb hbmem) (by omega)
    (show t.nHeight a' < t.nHeight a + 1 by omega)
  rw [lastCommonAncestor, hla, hlb]
  refine ⟨k, hk, mem_branch_trans hgraded hlast.left hamem, mem_branch_trans hgraded hlast.right hbmem,
    fun x hxa hxb => ?_⟩
  have hlea := height_le_of_mem hgraded hxa
  have hleb := height_le_of_mem hgraded hxb
  exact hlast.last x (mem_branch_of_le hgraded hamem hxa (by omega))
    (mem_branch_of_le hgraded hbmem hxb (by omega))

omit [DecidableEq K] in
theorem backList_spec (ht : t.Linked) {k : K} (hn : n ≤ t.nHeight k) (l : List K) :
    ∃ below, t.backList n k l = some (below ++ k :: l) ∧
      (below ++ [k]).Pairwise (fun x y => t.nHeight x < t.nHeight y) ∧
      ∀ x ∈ below ++ [k], x ∈ t.branch k ∧ t.nHeight k ≤ t.nHeight x + n := by
  induction n generalizing k l with
  | zero =>
    refine ⟨[], rfl, pairwise_singleton _ _, fun x hx => ?_⟩
    rw [nil_append, mem_singleton] at hx
    rw [hx]
    exact ⟨self_mem_branch k, le_rfl⟩
  | succ n ih =>
    cases hp : t.pprev k with
    | none =>
      have hzero := ht.rooted k hp
      omega
    | some p =>
      have hheight := ht.graded k p hp
      obtain ⟨below, hback, hascending, hall⟩ := ih (k := p) (by omega) (k :: l)
      have hlower : ∀ x ∈ below ++ [p], t.nHeight x < t.nHeight k := by
        intro x hx
        have hle := height_le_of_mem ht.graded (hall x hx).1
        omega
      refine ⟨below ++ [p], ?_, ?_, fun x hx => ?_⟩
      · rw [backList, hp, bind_some, hback, append_assoc]
        rfl
      · refine pairwise_append.mpr ⟨hascending, pairwise_singleton _ _, fun x hx y hy => ?_⟩
        rw [mem_singleton.mp hy]
        exact hlower x hx
      · rcases mem_append.mp hx with hx | hx
        · obtain ⟨hmem, hle⟩ := hall x hx
          exact ⟨(mem_branch_iff ht.graded).mpr (.inr ⟨p, hp, hmem⟩), by omega⟩
        · rw [mem_singleton.mp hx]
          exact ⟨self_mem_branch k, by omega⟩

end LinkMap

def BLOCK_DOWNLOAD_WINDOW : Nat := 1024

/- What is known of the blocks of a peer (of `CNodeState`). -/
structure PeerBlocks where
  pindexBestKnownBlock : Option uint256 := none
  hashLastUnknownBlock : uint256 := 0
  pindexLastCommonBlock : Option uint256 := none

structure FetchNode where
  index : ChainIndex
  pskip : uint256 → Option uint256
  chainActive : CChain uint256
  mapBlocksInFlight : AList fun _ : uint256 => NodeId × Nat

def PeerBlocks.processBlockAvailability (s : ChainIndex) (state : PeerBlocks) : PeerBlocks :=
  if state.hashLastUnknownBlock ≠ 0 ∧ state.hashLastUnknownBlock ∈ s.mapBlockIndex ∧
      s.nChainWork state.hashLastUnknownBlock > 0 then
    { state with
      pindexBestKnownBlock :=
        match state.pindexBestKnownBlock with
        | none => some state.hashLastUnknownBlock
        | some best =>
          if s.nChainWork state.hashLastUnknownBlock ≥ s.nChainWork best then
            some state.hashLastUnknownBlock
          else some best
      hashLastUnknownBlock := 0 }
  else state

structure Search where
  vBlocks : List uint256 := []
  pindexLastCommonBlock : uint256
  waitingfor : NodeId := -1
  nodeStaller : NodeId

namespace FetchNode

def links (n : FetchNode) : LinkMap uint256 := n.index.links n.pskip

section
variable (n : FetchNode) (nodeid : NodeId) (count nWindowEnd : Nat)

/- One turn of the inner loop; `error` is a return. -/
def visit (pindex : uint256) (s : Search) : Except Search Search :=
  if !(n.index.status pindex).isValid BlockStatus.VALID_TREE then .error s
  else if (n.index.status pindex).fHaveData then
    .ok (if n.index.nChainTx pindex ≠ 0 then { s with pindexLastCommonBlock := pindex } else s)
  else
    match n.mapBlocksInFlight.lookup pindex with
    | none =>
      if n.links.nHeight pindex > nWindowEnd then
        .error (if s.vBlocks.length = 0 ∧ s.waitingfor ≠ nodeid then
          { s with nodeStaller := s.waitingfor } else s)
      else if (s.vBlocks ++ [pindex]).length = count then
        .error { s with vBlocks := s.vBlocks ++ [pindex] }
      else .ok { s with vBlocks := s.vBlocks ++ [pindex] }
    | some queued => .ok (if s.waitingfor = -1 then { s with waitingfor := queued.1 } else s)

def visitAll : (vToFetch : List uint256) → Search → Except Search Search
  | [], s => .ok s
  | pindex :: rest, s =>
    match n.visit nodeid count nWindowEnd pindex s with
    | .error s => .error s
    | .ok s => visitAll rest s

/- A size as an `int`. -/
def toInt32 (size : Nat) : Int := (size : Int).bmod (2 ^ 32)

/- `std::max<int>(count - vBlocks.size(), 128)` -/
def batch (s : Search) : Nat := (max (toInt32 (count - s.vBlocks.length)) 128).toNat

/- The outer loop. -/
def searchFrom (best : uint256) (nMaxHeight : Nat) :
    (turns : Nat) → (pindexWalk : uint256) → Search → Option Search
  | 0, pindexWalk, s => if n.links.nHeight pindexWalk < nMaxHeight then none else some s
  | turns + 1, pindexWalk, s =>
    if n.links.nHeight pindexWalk < nMaxHeight then do
      let nToFetch := min (nMaxHeight - n.links.nHeight pindexWalk) (batch count s)
      let found ← n.links.getAncestor best (n.links.nHeight pindexWalk + nToFetch : Nat)
      let pindexWalk ← found
      let vToFetch ← n.links.backList (nToFetch - 1) pindexWalk []
      match n.visitAll nodeid count nWindowEnd vToFetch s with
      | .error s => some s
      | .ok s => searchFrom best nMaxHeight turns pindexWalk s
    else some s

end

structure Fetched where
  state : PeerBlocks
  vBlocks : List uint256 := []
  nodeStaller : NodeId

/- From the last common block on -/
def fetchAbove (n : FetchNode) (nodeid : NodeId) (count : Nat) (state : PeerBlocks) (best common : uint256)
    (nodeStaller : NodeId) : Option Fetched :=
  let nWindowEnd := n.links.nHeight common + BLOCK_DOWNLOAD_WINDOW
  let nMaxHeight := min (n.links.nHeight best) (nWindowEnd + 1)
  (n.searchFrom nodeid count nWindowEnd best nMaxHeight nMaxHeight common
    { pindexLastCommonBlock := common, nodeStaller := nodeStaller }).map fun s =>
      { state := { state with pindexLastCommonBlock := some s.pindexLastCommonBlock }
        vBlocks := s.vBlocks
        nodeStaller := s.nodeStaller }

/- The first guess. -/
def firstGuess (n : FetchNode) (state : PeerBlocks) (best : uint256) : Option uint256 :=
  state.pindexLastCommonBlock.or
    (n.chainActive.get (min (n.links.nHeight best : Int) n.chainActive.height))

/- `none` if a null pointer is followed or an assertion fails -/
def findNextBlocksToDownload (n : FetchNode) (nodeid : NodeId) (count : Nat) (state : PeerBlocks)
    (nodeStaller : NodeId) : Option Fetched :=
  if count = 0 then some { state := state, nodeStaller := nodeStaller }
  else
    let state := state.processBlockAvailability n.index
    match state.pindexBestKnownBlock with
    | none => some { state := state, nodeStaller := nodeStaller }
    | some best => do
      let tip ← n.chainActive.tip
      if n.index.nChainWork best < n.index.nChainWork tip then
        some { state := state, nodeStaller := nodeStaller }
      else do
        let guess ← n.firstGuess state best
        let found ← n.links.lastCommonAncestor guess best
        let common ← found
        if common = best then
          some { state := { state with pindexLastCommonBlock := some common }
                 nodeStaller := nodeStaller }
        else n.fetchAbove nodeid count state best common nodeStaller

variable {n : FetchNode} {count nWindowEnd nHeight : Nat} {best common : uint256} {s : Search}
  {env : ChainEnv}

def Stored (n : FetchNode) (h : uint256) : Prop :=
  ∀ a ∈ n.links.branch h, (n.index.status a).fHaveData = true

structure Wanted (n : FetchNode) (best : uint256) (nWindowEnd : Nat) (x : uint256) : Prop where
  ancestor : x ∈ n.links.branch best
  missing : (n.index.status x).fHaveData = false
  idle : n.mapBlocksInFlight.lookup x = none
  inWindow : n.links.nHeight x ≤ nWindowEnd

structure Searched (n : FetchNode) (best common : uint256) (count nWindowEnd nHeight : Nat)
    (s : Search) : Prop where
  wanted : ∀ x ∈ s.vBlocks, Wanted n best nWindowEnd x ∧ n.links.nHeight x ≤ nHeight
  ascending : s.vBlocks.Pairwise fun x y => n.links.nHeight x < n.links.nHeight y
  size : s.vBlocks.length ≤ count
  last : s.pindexLastCommonBlock ∈ n.links.branch best
  above : common ∈ n.links.branch s.pindexLastCommonBlock
  stored : s.pindexLastCommonBlock = common ∨ n.Stored s.pindexLastCommonBlock

theorem Searched.mono {nHeight' : Nat} (h : Searched n best common count nWindowEnd nHeight s)
    (hle : nHeight ≤ nHeight') :
    Searched n best common count nWindowEnd nHeight' s :=
  { h with wanted := fun x hx => ⟨(h.wanted x hx).1, (h.wanted x hx).2.trans hle⟩ }

theorem Searched.push {pindex : uint256} (h : Searched n best common count nWindowEnd nHeight s)
    (hwanted : Wanted n best nWindowEnd pindex) (hnext : nHeight < n.links.nHeight pindex)
    (hroom : s.vBlocks.length < count) :
    Searched n best common count nWindowEnd (n.links.nHeight pindex)
      { s with vBlocks := s.vBlocks ++ [pindex] } := by
  refine { h with
    wanted := fun x hx => ?_
    ascending := pairwise_append.mpr ⟨h.ascending, pairwise_singleton _ _, fun x hx y hy => ?_⟩
    size := ?_ }
  · rcases mem_append.mp hx with hx | hx
    · exact ⟨(h.wanted x hx).1, (h.wanted x hx).2.trans hnext.le⟩
    · rw [mem_singleton.mp hx]
      exact ⟨hwanted, le_rfl⟩
  · rw [mem_singleton.mp hy]
    exact (h.wanted x hx).2.trans_lt hnext
  · rw [length_append, length_singleton]
    exact hroom

structure Sound (env : ChainEnv) (n : FetchNode) : Prop where
  base : n.index.Base env
  skips : n.links.Skips
  active : n.chainActive = CChain.ofTip n.links n.index.tip

theorem Sound.branch_eq (_ : Sound env n) (h : uint256) : n.links.branch h = n.index.branch h := by
  rw [LinkMap.branch, links, ChainIndex.links_pprev, ChainIndex.links_nHeight]
  rfl

theorem Sound.stored_of_counted (hs : Sound env n) {h : uint256} (hcount : n.index.nChainTx h ≠ 0) :
    n.Stored h := by
  intro a ha
  rw [hs.branch_eq] at ha
  exact (hs.base.linked h hcount a ha).1

section
variable {env : ChainEnv} {nHeight : Nat} {s : Search} (nodeid : NodeId)

theorem visit_spec (hs : Sound env n) {pindex : uint256}
    (h : Searched n best common count nWindowEnd nHeight s) (hmem : pindex ∈ n.links.branch best)
    (hnext : nHeight < n.links.nHeight pindex) (hcommon : n.links.nHeight common ≤ nHeight)
    (hroom : s.vBlocks.length < count) :
    (∀ s', n.visit nodeid count nWindowEnd pindex s = .error s' →
      Searched n best common count nWindowEnd (n.links.nHeight pindex) s') ∧
    ∀ s', n.visit nodeid count nWindowEnd pindex s = .ok s' →
      Searched n best common count nWindowEnd (n.links.nHeight pindex) s' ∧
        s'.vBlocks.length < count := by
  have hseen := h.mono hnext.le
  rw [visit]
  by_cases hvalid : (n.index.status pindex).isValid BlockStatus.VALID_TREE = true
  · rw [hvalid, Bool.not_true, if_neg Bool.false_ne_true]
    by_cases hdata : (n.index.status pindex).fHaveData = true
    · rw [if_pos hdata]
      refine ⟨fun s' hs' => (by cases hs'), fun s' hs' => ?_⟩
      cases hs'
      by_cases hcount : n.index.nChainTx pindex ≠ 0
      · rw [if_pos hcount]
        have hgraded := hs.skips.linked.graded
        have hbelow : common ∈ n.links.branch best := mem_branch_trans hgraded h.above h.last
        have habove : common ∈ n.links.branch pindex :=
          mem_branch_of_le hgraded hmem hbelow (by omega)
        exact ⟨{ hseen with
          last := hmem
          above := habove
          stored := .inr (hs.stored_of_counted hcount) }, hroom⟩
      · rw [if_neg hcount]
        exact ⟨hseen, hroom⟩
    · rw [if_neg hdata]
      cases hflight : n.mapBlocksInFlight.lookup pindex with
      | some queued =>
        refine ⟨fun s' hs' => (by cases hs'), fun s' hs' => ?_⟩
        cases hs'
        split_ifs
        · exact ⟨{ hseen with }, hroom⟩
        · exact ⟨hseen, hroom⟩
      | none =>
        by_cases hwindow : n.links.nHeight pindex > nWindowEnd
        · rw [if_pos hwindow]
          refine ⟨fun s' hs' => ?_, fun s' hs' => by cases hs'⟩
          cases hs'
          split_ifs
          · exact { hseen with }
          · exact hseen
        · have hpush := h.push ⟨hmem, by simpa using hdata, hflight, by omega⟩ hnext hroom
          rw [if_neg hwindow]
          by_cases hfull : (s.vBlocks ++ [pindex]).length = count
          · rw [if_pos hfull]
            refine ⟨fun s' hs' => ?_, fun s' hs' => by cases hs'⟩
            cases hs'
            exact hpush
          · rw [if_neg hfull]
            refine ⟨fun s' hs' => (by cases hs'), fun s' hs' => ?_⟩
            cases hs'
            exact ⟨hpush, Nat.lt_of_le_of_ne hpush.size hfull⟩
  · rw [Bool.not_eq_true] at hvalid
    rw [hvalid, Bool.not_false, if_pos rfl]
    refine ⟨fun s' hs' => ?_, fun s' hs' => by cases hs'⟩
    cases hs'
    exact hseen

theorem visitAll_spec (hs : Sound env n) {vToFetch : List uint256} {top : Nat}
    (h : Searched n best common count nWindowEnd nHeight s)
    (hascending : vToFetch.Pairwise fun x y => n.links.nHeight x < n.links.nHeight y)
    (hall : ∀ x ∈ vToFetch, x ∈ n.links.branch best ∧ nHeight < n.links.nHeight x ∧
      n.links.nHeight x ≤ top)
    (hcommon : n.links.nHeight common ≤ nHeight) (htop : nHeight ≤ top)
    (hroom : s.vBlocks.length < count) :
    (∀ s', n.visitAll nodeid count nWindowEnd vToFetch s = .error s' →
      Searched n best common count nWindowEnd top s') ∧
    ∀ s', n.visitAll nodeid count nWindowEnd vToFetch s = .ok s' →
      Searched n best common count nWindowEnd top s' ∧ s'.vBlocks.length < count := by
  induction vToFetch generalizing s nHeight with
  | nil =>
    refine ⟨fun s' hs' => (by cases hs'), fun s' hs' => ?_⟩
    cases hs'
    exact ⟨h.mono htop, hroom⟩
  | cons pindex rest ih =>
    obtain ⟨hfirst, hlater⟩ := pairwise_cons.mp hascending
    obtain ⟨⟨hmem, hnext, hle⟩, hrest⟩ := forall_mem_cons.mp hall
    obtain ⟨herror, hok⟩ := visit_spec nodeid hs h hmem hnext hcommon hroom
    rw [visitAll]
    cases hvisit : n.visit nodeid count nWindowEnd pindex s with
    | error s1 =>
      refine ⟨fun s' hs' => ?_, fun s' hs' => by cases hs'⟩
      cases hs'
      exact (herror s1 hvisit).mono hle
    | ok s1 =>
      obtain ⟨hsearched, hroom1⟩ := hok s1 hvisit
      exact ih hsearched hlater
        (fun x hx => ⟨(hrest x hx).1, hfirst x hx, (hrest x hx).2.2⟩) (by omega) hle hroom1

theorem batch_pos (count : Nat) (s : Search) : 0 < batch count s := by
  rw [batch]
  omega

theorem searchFrom_spec (hs : Sound env n) (nMaxHeight turns : Nat) {pindexWalk : uint256}
    (hmax : nMaxHeight ≤ n.links.nHeight best)
    (h : Searched n best common count nWindowEnd (n.links.nHeight pindexWalk) s)
    (hcommon : n.links.nHeight common ≤ n.links.nHeight pindexWalk)
    (hroom : s.vBlocks.length < count) (hturns : nMaxHeight ≤ n.links.nHeight pindexWalk + turns) :
    ∃ s' top, n.searchFrom nodeid count nWindowEnd best nMaxHeight turns pindexWalk s = some s' ∧
      Searched n best common count nWindowEnd top s' := by
  induction turns generalizing pindexWalk s with
  | zero =>
    refine ⟨s, _, ?_, h⟩
    rw [searchFrom, if_neg (by omega)]
  | succ turns ih =>
    rw [searchFrom]
    by_cases hlt : n.links.nHeight pindexWalk < nMaxHeight
    · rw [if_pos hlt]
      dsimp only
      generalize hfetch : min (nMaxHeight - n.links.nHeight pindexWalk) (batch count s) = nToFetch
      have hbatch := batch_pos count s
      have hlinked := hs.skips.linked
      obtain ⟨walk, hwalk⟩ := exists_ancestorAt hlinked.graded hlinked.rooted
        (show n.links.nHeight pindexWalk + nToFetch ≤ n.links.nHeight best by omega)
      have hat := height_of_ancestorAt hlinked.graded hwalk
      have hmem := mem_of_ancestorAt hwalk
      have hfound : n.links.getAncestor best (n.links.nHeight pindexWalk + nToFetch : Nat) =
          some (some walk) := by
        rw [LinkMap.getAncestor, LinkMap.getAncestorIn_eq hlinked (fun a _ => hs.skips.right a)
          (by omega) (by omega), LinkMap.ancestorAt, hwalk]
      obtain ⟨below, hback, hascending, hall⟩ :=
        LinkMap.backList_spec hlinked (k := walk) (n := nToFetch - 1) (by omega) []
      obtain ⟨herror, hok⟩ := visitAll_spec nodeid hs h hascending
        (fun x hx => ⟨mem_branch_trans hlinked.graded (hall x hx).1 hmem,
          by have := (hall x hx).2; omega, height_le_of_mem hlinked.graded (hall x hx).1⟩)
        hcommon (by omega) hroom
      rw [hfound, bind_eq_bind, bind_some, bind_eq_bind, bind_some, hback,
        bind_eq_bind, bind_some]
      cases hvisit : n.visitAll nodeid count nWindowEnd (below ++ [walk]) s with
      | error s1 => exact ⟨s1, _, rfl, herror s1 hvisit⟩
      | ok s1 =>
        obtain ⟨hsearched, hroom1⟩ := hok s1 hvisit
        exact ih hsearched (by omega) hroom1 (by omega)
    · rw [if_neg hlt]
      exact ⟨s, _, rfl, h⟩

end

section
variable {env : ChainEnv} {state : PeerBlocks} {h : uint256}

theorem known_iff : n.links h ≠ none ↔ h ∈ n.index.mapBlockIndex := by
  rw [links, ChainIndex.links, Ne, map_eq_none_iff, AList.lookup_eq_none, not_not]

theorem Sound.endsIn (hs : Sound env n) : CChain.EndsIn n.links env.hashGenesisBlock := by
  intro k hk hp
  rw [links, ChainIndex.links_pprev] at hp
  exact hs.base.root k (known_iff.mp hk) hp

theorem Sound.stored_of_active (hs : Sound env n) (hh : h ∈ n.links.branch n.index.tip) :
    n.Stored h := by
  intro a ha
  have hmem := mem_branch_trans hs.skips.linked.graded ha hh
  have hbranch := hs.branch_eq n.index.tip
  rw [LinkMap.branch] at hbranch
  rw [hbranch] at hmem
  exact (hs.base.tip a hmem).1

theorem Sound.tip_known (hs : Sound env n) : n.links n.index.tip ≠ none :=
  known_iff.mpr hs.base.tip.mem

theorem Sound.tip_eq (hs : Sound env n) : n.chainActive.tip = some n.index.tip := by
  have hlength : n.chainActive.length = n.links.nHeight n.index.tip + 1 := by
    rw [hs.active, CChain.length_ofTip hs.skips.linked]
  have hself : n.links.ancestorAt n.index.tip (n.links.nHeight n.index.tip) = some n.index.tip :=
    ancestorAt_self _
  rw [CChain.tip, getLast?_eq_getElem?, hlength, Nat.add_sub_cancel, hs.active,
    CChain.getElem?_ofTip hs.skips.linked, hself]
  rfl

theorem Sound.firstGuess_eq (hs : Sound env n) (state : PeerBlocks) (best : uint256) :
    ∃ guess, n.firstGuess state best = some guess ∧ (state.pindexLastCommonBlock = some guess ∨
        (state.pindexLastCommonBlock = none ∧ guess ∈ n.links.branch n.index.tip)) := by
  rw [firstGuess]
  cases hlast : state.pindexLastCommonBlock with
  | some guess => exact ⟨guess, rfl, .inl rfl⟩
  | none =>
    have hheight : n.chainActive.height = n.links.nHeight n.index.tip := by
      rw [CChain.height, hs.active, CChain.length_ofTip hs.skips.linked]
      omega
    obtain ⟨guess, hguess⟩ := exists_ancestorAt hs.skips.linked.graded hs.skips.linked.rooted
      (show min (n.links.nHeight best) (n.links.nHeight n.index.tip) ≤ n.links.nHeight n.index.tip by
        omega)
    refine ⟨guess, ?_, .inr ⟨rfl, mem_of_ancestorAt hguess⟩⟩
    rw [hheight, ← Nat.cast_min, none_or, hs.active, CChain.get_ofTip hs.skips.linked]
    exact hguess

structure Answer (n : FetchNode) (state : PeerBlocks) (r : Fetched) (best guess common last : uint256) :
    Prop where
  known : r.state.pindexBestKnownBlock = some best
  starts : n.firstGuess state best = some guess
  meets : LinkMap.IsLastCommon n.links guess best common
  wanted : ∀ x ∈ r.vBlocks, Wanted n best (n.links.nHeight common + BLOCK_DOWNLOAD_WINDOW) x
  ends : r.state.pindexLastCommonBlock = some last
  ancestor : last ∈ n.links.branch best
  above : common ∈ n.links.branch last
  advanced : last = common ∨ n.Stored last
  stored : (∀ b, state.pindexLastCommonBlock = some b → n.Stored b) → n.Stored last

theorem processBlockAvailability_known {s : ChainIndex}
    (hbest : ∀ b, state.pindexBestKnownBlock = some b → b ∈ s.mapBlockIndex) :
    (state.processBlockAvailability s).pindexLastCommonBlock = state.pindexLastCommonBlock ∧
      ∀ b, (state.processBlockAvailability s).pindexBestKnownBlock = some b → b ∈ s.mapBlockIndex := by
  rw [PeerBlocks.processBlockAvailability]
  split_ifs with hknown
  · refine ⟨rfl, fun b hb => ?_⟩
    split at hb
    · cases hb
      exact hknown.2.1
    · split_ifs at hb
      · cases hb
        exact hknown.2.1
      · cases hb
        exact hbest _ ‹_›
  · exact ⟨rfl, hbest⟩

theorem nodup_of_ascending {l : List uint256}
    (h : l.Pairwise fun x y => n.links.nHeight x < n.links.nHeight y) : l.Nodup :=
  h.imp fun hlt heq => by
    rw [heq] at hlt
    exact lt_irrefl _ hlt

theorem Sound.stored_common (hs : Sound env n) {guess : uint256}
    (hguess : state.pindexLastCommonBlock = some guess ∨
      (state.pindexLastCommonBlock = none ∧ guess ∈ n.links.branch n.index.tip))
    (hcommon : common ∈ n.links.branch guess)
    (hbefore : ∀ b, state.pindexLastCommonBlock = some b → n.Stored b) : n.Stored common := by
  have hstored : n.Stored guess := by
    rcases hguess with hold | ⟨-, hactive⟩
    · exact hbefore guess hold
    · exact hs.stored_of_active hactive
  intro a ha
  exact hstored a (mem_branch_trans hs.skips.linked.graded ha hcommon)

/- The blocks to ask for, and the last common block. -/
theorem findNextBlocksToDownload_spec (hs : Sound env n) (nodeid : NodeId) (count : Nat)
    (state : PeerBlocks) (hbest : ∀ b, state.pindexBestKnownBlock = some b → b ∈ n.index.mapBlockIndex)
    (hlast : ∀ b, state.pindexLastCommonBlock = some b → b ∈ n.index.mapBlockIndex)
    (nodeStaller : NodeId) :
    ∃ r, n.findNextBlocksToDownload nodeid count state nodeStaller = some r ∧
      r.vBlocks.length ≤ count ∧ r.vBlocks.Nodup ∧
      (r.vBlocks.Pairwise fun x y => n.links.nHeight x < n.links.nHeight y) ∧
      ((r.vBlocks = [] ∧ r.state.pindexLastCommonBlock = state.pindexLastCommonBlock) ∨
        ∃ best guess common last, Answer n state r best guess common last) := by
  obtain ⟨hsame, hbest'⟩ := processBlockAvailability_known hbest
  rw [findNextBlocksToDownload]
  by_cases hzero : count = 0
  · rw [if_pos hzero]
    exact ⟨_, rfl, Nat.zero_le _, nodup_nil, List.Pairwise.nil, .inl ⟨rfl, rfl⟩⟩
  rw [if_neg hzero]
  dsimp only
  cases hknown : (state.processBlockAvailability n.index).pindexBestKnownBlock with
  | none => exact ⟨_, rfl, Nat.zero_le _, nodup_nil, List.Pairwise.nil, .inl ⟨rfl, hsame⟩⟩
  | some best =>
    have hb : n.links best ≠ none := known_iff.mpr (hbest' best hknown)
    dsimp only
    rw [hs.tip_eq, bind_eq_bind, bind_some]
    by_cases hwork : n.index.nChainWork best < n.index.nChainWork n.index.tip
    · rw [if_pos hwork]
      exact ⟨_, rfl, Nat.zero_le _, nodup_nil, List.Pairwise.nil, .inl ⟨rfl, hsame⟩⟩
    rw [if_neg hwork]
    obtain ⟨guess, hguess, hfrom⟩ := hs.firstGuess_eq state best
    have hguess' : n.firstGuess (state.processBlockAvailability n.index) best = some guess := by
      rw [firstGuess, hsame]
      exact hguess
    have hg : n.links guess ≠ none := by
      rcases hfrom with hold | ⟨-, hactive⟩
      · exact known_iff.mpr (hlast guess hold)
      · exact hs.skips.linked.known_of_mem hs.tip_known hactive
    obtain ⟨common, hfound, hcommon⟩ := LinkMap.lastCommonAncestor_spec hs.skips hs.endsIn hg hb
    rw [hguess', bind_eq_bind, bind_some, hfound, bind_some, bind_some]
    by_cases heq : common = best
    · rw [if_pos heq]
      refine ⟨_, rfl, Nat.zero_le _, nodup_nil, List.Pairwise.nil,
        .inr ⟨best, guess, common, common, rfl, hguess, hcommon, ?_, rfl, hcommon.right,
          self_mem_branch _, .inl rfl, hs.stored_common hfrom hcommon.left⟩⟩
      intro x hx
      cases hx
    · rw [if_neg heq, fetchAbove]
      have hstart : Searched n best common count (n.links.nHeight common + BLOCK_DOWNLOAD_WINDOW)
          (n.links.nHeight common)
          { pindexLastCommonBlock := common, nodeStaller := nodeStaller } :=
        ⟨fun x hx => (by cases hx), List.Pairwise.nil, Nat.zero_le _, hcommon.right, self_mem_branch _,
          .inl rfl⟩
      obtain ⟨s, top, hsearch, hsearched⟩ := searchFrom_spec nodeid hs
        (min (n.links.nHeight best) (n.links.nHeight common + BLOCK_DOWNLOAD_WINDOW + 1))
        (min (n.links.nHeight best) (n.links.nHeight common + BLOCK_DOWNLOAD_WINDOW + 1))
        (by omega) hstart le_rfl (Nat.pos_of_ne_zero hzero) (by omega)
      rw [hsearch]
      refine ⟨_, rfl, hsearched.size, nodup_of_ascending hsearched.ascending, hsearched.ascending,
        .inr ⟨best, guess, common, s.pindexLastCommonBlock, hknown, hguess, hcommon,
          fun x hx => (hsearched.wanted x hx).1, rfl, hsearched.last, hsearched.above,
          hsearched.stored, fun hbefore => ?_⟩⟩
      rcases hsearched.stored with hsame' | hstored
      · rw [hsame']
        exact hs.stored_common hfrom hcommon.left hbefore
      · exact hstored

end

end FetchNode

namespace ChainIndex

/- The skip pointers that `BuildSkip` sets. -/
def skipPointers (s : ChainIndex) (hash : uint256) : Option uint256 :=
  (s.pprev hash).bind fun p => Lib.Branches.ancestorAt s.pprev s.nHeight p (getSkipHeight (s.nHeight hash))

theorem skips_skipPointers {env : ChainEnv} {s : ChainIndex} (hb : s.Base env)
    (hroot : s.nHeight env.hashGenesisBlock = 0) : (s.links s.skipPointers).Skips where
  linked := by
    refine ⟨fun k p hp => ?_, ?_, fun k hp => ?_⟩
    · rw [links_pprev] at hp
      rw [links, Ne, map_eq_none_iff, AList.lookup_eq_none, not_not]
      exact hb.known k p hp
    · rw [links_pprev, links_nHeight]
      exact hb.graded
    · rw [links_pprev] at hp
      rw [links_nHeight]
      by_cases hk : k ∈ s.mapBlockIndex
      · rw [hb.root k hk hp, hroot]
      · rw [nHeight, AList.lookup_eq_none.mpr hk]
        rfl
  right := by
    intro k p hp
    rw [links_pprev] at hp
    obtain ⟨index, hindex, -⟩ := bind_eq_some_iff.mp hp
    have hpskip : (s.links s.skipPointers).pskip k = s.skipPointers k := by
      rw [LinkMap.pskip, links, hindex]
      rfl
    rw [hpskip, skipPointers, hp, LinkMap.ancestorAt, links_pprev, links_nHeight]
    rfl

end ChainIndex

namespace FetchNode
open ChainIndex

def headerIndex : ChainIndex :=
  (initBlockIndex nonceEnv ⟨0, 8⟩).addToBlockIndex nonceEnv (nonceBlock 0 1 0x1e0fffff 1)

def headerNode : FetchNode where
  index := headerIndex
  pskip := headerIndex.skipPointers
  chainActive := CChain.ofTip (headerIndex.links headerIndex.skipPointers) headerIndex.tip
  mapBlocksInFlight := ∅

theorem headerIndex_base : headerIndex.Base nonceEnv := by
  have hnew : (nonceBlock 0 1 0x1e0fffff 1).getHash nonceEnv.Hash ∉
      (initBlockIndex nonceEnv ⟨0, 8⟩).mapBlockIndex := by decide +kernel
  have hparent : (nonceBlock 0 1 0x1e0fffff 1).hashPrevBlock ∈
      (initBlockIndex nonceEnv ⟨0, 8⟩).mapBlockIndex := by decide +kernel
  have hvalid : ((initBlockIndex nonceEnv ⟨0, 8⟩).status
      (nonceBlock 0 1 0x1e0fffff 1).hashPrevBlock).failed = false := by decide +kernel
  have haccept : (initBlockIndex nonceEnv ⟨0, 8⟩).handle nonceEnv
      (.header (nonceBlock 0 1 0x1e0fffff 1) true) = some headerIndex := by
    rw [handle, acceptBlockHeader, if_neg hnew, if_neg (by simp), if_pos hparent, hvalid,
      if_neg (by simp)]
    rfl
  exact handle_base (init_base nonceEnv ⟨0, 8⟩ _ rfl) haccept

theorem headerNode_sound : Sound nonceEnv headerNode where
  base := headerIndex_base
  skips := skips_skipPointers headerIndex_base (by decide +kernel)
  active := rfl

theorem findNextBlocksToDownload_header :
    ∃ r, headerNode.findNextBlocksToDownload 7 16 { pindexBestKnownBlock := some 1 } (-1) = some r ∧
      r.vBlocks = [1] ∧ r.vBlocks.length ≤ 16 := by
  obtain ⟨r, hr, hsize, -⟩ := findNextBlocksToDownload_spec headerNode_sound 7 16
    { pindexBestKnownBlock := some 1 }
    (fun b hb => by
      cases hb
      decide +kernel)
    (fun b hb => by cases hb) (-1)
  have hblocks : (headerNode.findNextBlocksToDownload 7 16 { pindexBestKnownBlock := some 1 } (-1)).map
      Fetched.vBlocks = some [1] := by decide +kernel
  rw [hr] at hblocks
  exact ⟨r, hr, Option.some.inj hblocks, hsize⟩

end FetchNode

end Alqo
